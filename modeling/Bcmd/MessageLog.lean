import Bcmd.Lib.Window
import Bcmd.Persistence

/-!
# The histories as windows of a log

What a channel's history is for: a log that is only ever appended to. `InMemoryMessageRepository` keeps the
end of it, as long as its cap, and answers both queries from there.
-/

namespace Bcmd

/-- All that was ever saved, channel by channel. -/
abbrev MessageLog := ChannelId → List Message

def MessageLog.save (log : MessageLog) (message : Message) : MessageLog :=
  Function.update log message.channelId (log message.channelId ++ [message])

namespace InMemoryMessageRepository

theorem listBefore_eq (repo : InMemoryMessageRepository) (k : ChannelId) (x : MessageId) (n : UInt32) :
    repo.listBefore k x n = Window.before Message.id x n.toNat (repo.buffer k) := by
  unfold InMemoryMessageRepository.listBefore InMemoryMessageRepository.buffer Window.before
  rcases repo.buffers.lookup k with _ | buf
  · rfl
  simp only [Option.getD_some]
  generalize buf.findIdx? (fun m => decide (m.id = x)) = idx
  split
  · subst ‹n = 0›
    rcases idx with _ | d <;> simp
  · rcases idx with _ | d
    · rfl
    · show (buf.take d).drop (d - min n.toNat d) = (buf.take d).drop (d - n.toNat)
      congr 1
      omega

/-- Each buffer is the end of its log. -/
def Keeps (log : MessageLog) (repo : InMemoryMessageRepository) : Prop :=
  ∀ k, repo.buffer k = (log k).rtake repo.cap.toNat

/-- Saves one after the other. -/
def saveAll (repo : InMemoryMessageRepository) (messages : List Message) : InMemoryMessageRepository :=
  messages.foldl (fun repo message => (repo.save message).2) repo

section
variable {repo : InMemoryMessageRepository} {log : MessageLog} {k : ChannelId} {m : Message}

theorem Keeps.empty (cap : UInt32) : Keeps (fun _ => []) (.new cap) := by
  intro k
  rw [List.rtake_nil]
  exact buffer_new cap k

theorem Keeps.save (h : Keeps log repo) (m : Message) : Keeps (log.save m) (repo.save m).2 := by
  intro k
  rw [buffer_save, h k, show (repo.save m).2.cap = repo.cap from rfl]
  unfold MessageLog.save
  by_cases hk : k = m.channelId
  · rw [if_pos hk, popFrontWhileOver_eq, Window.drop_rtake_append, hk, Function.update_self]
  · rw [if_neg hk, Function.update_of_ne hk]

theorem Keeps.saveAll (h : Keeps log repo) (ms : List Message) :
    Keeps (ms.foldl MessageLog.save log) (repo.saveAll ms) := by
  induction ms generalizing log repo with
  | nil => exact h
  | cons m ms ih => exact ih (h.save m)

@[simp] theorem cap_saveAll (repo : InMemoryMessageRepository) (ms : List Message) :
    (repo.saveAll ms).cap = repo.cap := by
  induction ms generalizing repo with
  | nil => rfl
  | cons m ms ih => exact ih _

theorem cap_new (cap : UInt32) : (new cap).cap = if cap = 0 then kDefaultCap else cap := by
  unfold new
  split <;> rfl

/-- The log of a channel is what was saved for it. -/
theorem log_save (ms : List Message) (log : MessageLog) (k : ChannelId) :
    ms.foldl MessageLog.save log k = log k ++ ms.filter fun m => m.channelId = k := by
  induction ms generalizing log with
  | nil => simp
  | cons m ms ih =>
    rw [List.foldl_cons, ih]
    unfold MessageLog.save
    by_cases hk : m.channelId = k
    · subst hk
      simp
    · simp [hk, Function.update_of_ne (Ne.symm hk)]

theorem buffer_saveAll (cap : UInt32) (ms : List Message) (k : ChannelId) :
    ((new cap).saveAll ms).buffer k =
      (ms.filter fun m => m.channelId = k).rtake (if cap = 0 then kDefaultCap else cap).toNat := by
  rw [(Keeps.empty cap).saveAll ms k, log_save, List.nil_append, cap_saveAll, cap_new]

/-- Of a buffer without repeated ids, the page before a message is the end of what stands before it. -/
theorem listBefore_split {older newer : List Message} (n : UInt32)
    (hbuffer : repo.buffer k = older ++ m :: newer) (hnd : ((repo.buffer k).map Message.id).Nodup) :
    repo.listBefore k m.id n = older.rtake n.toNat := by
  have hbefore : ∀ m' ∈ older, m'.id ≠ m.id := by
    intro m' hm' hid
    rw [hbuffer, List.map_append] at hnd
    refine List.disjoint_of_nodup_append hnd (List.mem_map_of_mem hm') ?_
    rw [hid]
    simp
  rw [listBefore_eq, hbuffer]
  exact Window.before_split hbefore

end

end InMemoryMessageRepository

open InMemoryMessageRepository

/-- For every cap and every sequence of saves, of messages with different ids: the buffer, the recent messages
and the page before a message are read off the log of the channel, and only off that one. -/
theorem history_is_log (cap : UInt32) (ms : List Message) (hnd : (ms.map Message.id).Nodup) (k : ChannelId) :
    let repo := (new cap).saveAll ms
    let log := ms.filter fun m => m.channelId = k
    let size := (if cap = 0 then 200 else cap).toNat
    repo.buffer k = log.rtake size ∧ (∀ n, repo.recent k n = log.rtake (min n.toNat size)) ∧
      (∀ older m newer n, repo.buffer k = older ++ m :: newer →
        repo.listBefore k m.id n = older.rtake n.toNat) ∧
      (∀ x n, (∀ m ∈ repo.buffer k, m.id ≠ x) → repo.listBefore k x n = []) ∧
      ∀ ms' : List Message, (ms'.filter fun m => m.channelId = k) = log →
        ∀ n, ((new cap).saveAll ms').recent k n = repo.recent k n ∧
          ∀ x, ((new cap).saveAll ms').listBefore k x n = repo.listBefore k x n := by
  intro repo log size
  have hbuffer : repo.buffer k = log.rtake size := buffer_saveAll cap ms k
  have hids : ((repo.buffer k).map Message.id).Nodup := by
    rw [hbuffer]
    exact hnd.sublist (((Window.rtake_suffix ..).sublist.trans List.filter_sublist).map _)
  refine ⟨hbuffer, fun n => ?_, fun older m newer n hsplit => listBefore_split n hsplit hids,
    fun x n hnone => ?_, fun ms' hsame n => ?_⟩
  · rw [recent_eq, hbuffer]
    exact Window.rtake_rtake ..
  · rw [listBefore_eq]
    exact Window.before_notMem hnone
  · have hbuffer' : ((new cap).saveAll ms').buffer k = repo.buffer k := by
      rw [buffer_saveAll, hsame]
      exact hbuffer.symm
    refine ⟨by rw [recent_eq, recent_eq, hbuffer'], fun x => ?_⟩
    rw [listBefore_eq, listBefore_eq, hbuffer']

/-- Two messages where there is room for one. -/
def numbered (id : Nat) : Message := ⟨⟨id⟩, ⟨2⟩, ⟨1⟩, ⟨ascii "hi", MessageContent.valid_hi⟩, 0⟩

theorem history_is_log_evicted :
    ((new 1).saveAll [numbered 5, numbered 6]).recent ⟨1⟩ 4294967295 = [numbered 6] :=
  (history_is_log 1 [numbered 5, numbered 6] (by decide) ⟨1⟩).2.1 4294967295

end Bcmd
