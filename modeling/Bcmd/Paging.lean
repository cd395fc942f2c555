import Bcmd.History
import Bcmd.MessageLog

/-!
# Cursor pagination

A client reads the history of a channel backwards, page after page, each page before the first message of
the last one that had any. Others save and so evict messages meanwhile, between its calls and within them.
-/

namespace Bcmd
open Server

/-! ### The chain of calls -/

/-- All that the pages hold, oldest first. -/
def obtained (pages : List ListMessages.Page) : List Message :=
  pages.reverse.flatMap ListMessages.Page.messages

/-- The id of the first message of the last page that has one. -/
def cursor (pages : List ListMessages.Page) : Option MessageId := (obtained pages).head?.map Message.id

/-- The calls of a client that has `pages`, one for each limit. With an empty first page there is
nothing to go on with. -/
def chainFrom (c : ClientId) (k : ChannelId) (pages : List ListMessages.Page) :
    List UInt32 → Task (List ListMessages.Page)
  | [] => return pages
  | limit :: limits =>
    if pages ≠ [] ∧ cursor pages = none then return pages
    else do
      match ← ListMessages.execute c k (cursor pages) limit with
      | .error _ => return pages
      | .ok page => chainFrom c k (pages ++ [page]) limits

/-- Whether the last page said there is more. -/
def lastMore (pages : List ListMessages.Page) : Option Bool := pages.getLast?.map ListMessages.Page.hasMore

section
variable {ι : Type}

/-- The chain, and any number of sends. -/
def paging (c : ClientId) (k : ChannelId) (limits : List UInt32) (sends : ι → SendRequest) (s : Server) :
    Config Server (Option ι) Call Call.Res (List ListMessages.Page) where
  state := s
  threads
    | none => chainFrom c k [] limits
    | some i => do
      let _ ← (sends i).run
      return []

/-- The chain has not read the history yet. -/
def NoReads {α : Type} (tr : List (Event Server (Option ι) Call Call.Res α)) : Prop :=
  ∀ e ∈ tr, e.thread = none → ∀ o, e.call ≠ .messages o

/-- The chain's first read of the history comes right after `tr₁`. -/
def FirstRead {α : Type} (k : ChannelId) (tr tr₁ : List (Event Server (Option ι) Call Call.Res α)) : Prop :=
  NoReads tr₁ ∧ ∃ e tr₂ n, tr = tr₁ ++ e :: tr₂ ∧ e.thread = none ∧ e.call = .messages (.recent k n)

/-- What the pages of a chain are, at a moment between two of its calls. -/
structure Paged (k : ChannelId) (limits : List UInt32) (s : Server)
    (tr : List (Event Server (Option ι) Call Call.Res (List ListMessages.Page)))
    (m : Config Server (Option ι) Call Call.Res (List ListMessages.Page))
    (pages : List ListMessages.Page) : Prop where
  /-- The pages are the end of the log as it was at the first read; and if the last one said there is no
  more, nothing before them is retained. -/
  segment : pages ≠ [] → ∃ tr₁ older, FirstRead k tr tr₁ ∧ log k s tr₁ = older ++ obtained pages ∧
    (lastMore pages = some false → ∀ message ∈ older, message ∉ m.state.messages.buffer k)
  nodup : ((obtained pages).map Message.id).Nodup
  size : ∃ used rest, limits = used ++ rest ∧
    List.Forall₂ (fun page limit => page.messages.length ≤
      (min limit ListMessages.kServerMaxLimit).toNat) pages used
  /-- Without saves, the last page is reached with all that is retained, by as many calls as there are
  messages. -/
  whole : saved k tr = [] → lastMore pages = some false → obtained pages = s.messages.buffer k
  finite : saved k tr = [] → m.threads none = .ret pages → limits ≠ [] →
    (s.messages.buffer k).length ≤ limits.length → lastMore pages = some false

/-! ### The chain, call by call -/

section
variable (c : ClientId) (k : ChannelId) (pages : List ListMessages.Page) (limits : List UInt32)

/-- The chain once it has read a page. -/
def afterRead (page : List Message) : Task (List ListMessages.Page) := do
  let more ← ListMessages.hasMore k page
  chainFrom c k (pages ++ [⟨page, more⟩]) limits

/-- The chain once it has found the channel with its client. -/
def readPage (limit : UInt32) : Task (List ListMessages.Page) :=
  match cursor pages with
  | some x => .call (.messages (.listBefore k x (min limit ListMessages.kServerMaxLimit)))
    (afterRead c k pages limits)
  | none => .call (.messages (.recent k (min limit ListMessages.kServerMaxLimit)))
    (afterRead c k pages limits)

variable {c k pages limits}

theorem chainFrom_cons (limit : UInt32) (h : ¬ (pages ≠ [] ∧ cursor pages = none)) :
    chainFrom c k pages (limit :: limits) = .call (.channels (.findById k)) fun r =>
      match r with
      | .error _ => .ret pages
      | .ok ch => if ch.hasMember c then readPage c k pages limits limit else .ret pages := by
  rw [chainFrom, if_neg h]
  simp only [ListMessages.execute, Prog.perform_bind, Prog.call_bind, Prog.pure_eq]
  congr 1
  funext r
  rcases r with e | ch
  · rfl
  · dsimp only
    by_cases hm : ch.hasMember c
    · simp only [hm, not_true, if_false, if_true]
      unfold readPage afterRead
      rcases cursor pages with _ | x <;> simp
    · simp [hm]

theorem afterRead_cons (a : Message) (page : List Message) :
    afterRead c k pages limits (a :: page) = .call (.messages (.listBefore k a.id 1)) fun older =>
      chainFrom c k (pages ++ [⟨a :: page, ¬ older.isEmpty⟩]) limits := rfl

/-- Between two calls, the chain knows its pages. -/
theorem pages_of_chainFrom {pages' : List ListMessages.Page} {limits' : List UInt32}
    (h : chainFrom c k pages limits = chainFrom c k pages' limits') : pages = pages' := by
  have hshape : ∀ pages limits, chainFrom c k pages limits = .ret pages ∨
      ∃ f, chainFrom c k pages limits = .call (.channels (.findById k)) f ∧ f
        (.error .channelNotFound) = .ret pages := by
    intro pages limits
    rcases limits with _ | ⟨limit, limits⟩
    · exact .inl rfl
    · by_cases hstop : pages ≠ [] ∧ cursor pages = none
      · exact .inl (by rw [chainFrom, if_pos hstop]; rfl)
      · exact .inr ⟨_, chainFrom_cons limit hstop, rfl⟩
  rcases hshape pages limits with h₁ | ⟨f, h₁, hf⟩ <;> rcases hshape pages' limits' with h₂ | ⟨f', h₂, hf'⟩
  all_goals rw [h₁, h₂] at h
  · exact Prog.ret.inj h
  · cases h
  · cases h
  · cases h
    exact Prog.ret.inj (hf.symm.trans hf')

theorem chainFrom_ne_messages {o : IMessageRepository}
    {f : Call.Res (.messages o) → Task (List ListMessages.Page)} :
    chainFrom c k pages limits ≠ .call (.messages o) f := by
  rcases limits with _ | ⟨limit, limits⟩
  · nofun
  · by_cases hstop : pages ≠ [] ∧ cursor pages = none
    · rw [chainFrom, if_pos hstop]; nofun
    · rw [chainFrom_cons limit hstop]; nofun

theorem obtained_snoc (page : ListMessages.Page) :
    obtained (pages ++ [page]) = page.messages ++ obtained pages := by
  simp [obtained]

@[simp] theorem lastMore_snoc (page : ListMessages.Page) :
    lastMore (pages ++ [page]) = some page.hasMore := by
  simp [lastMore]

end

end

/-! ### The invariant -/

section
variable {ι : Type} {c : ClientId} {k : ChannelId} {limits : List UInt32} {s : Server}
  {sends : ι → SendRequest}
  {tr tr₁ : List (Event Server (Option ι) Call Call.Res (List ListMessages.Page))}
  {e : Event Server (Option ι) Call Call.Res (List ListMessages.Page)} {pages : List ListMessages.Page}

theorem FirstRead.snoc (h : FirstRead k tr tr₁) : FirstRead k (tr ++ [e]) tr₁ := by
  obtain ⟨hno, e₁, tr₂, n, rfl, hi, hcall⟩ := h
  exact ⟨hno, e₁, tr₂ ++ [e], n, by simp, hi, hcall⟩

theorem FirstRead.log_eq (h : FirstRead k tr tr₁) : ∃ later, log k s tr = log k s tr₁ ++ later := by
  obtain ⟨-, e₁, tr₂, n, rfl, -, -⟩ := h
  exact ⟨_, log_append⟩

/-- What the chain knows by its pages: they are the end of the log at the first read, `older` comes
before. -/
structure Known (k : ChannelId) (s : Server)
    (tr : List (Event Server (Option ι) Call Call.Res (List ListMessages.Page)))
    (buffer : List Message) (pages : List ListMessages.Page)
    (tr₁ : List (Event Server (Option ι) Call Call.Res (List ListMessages.Page)))
    (older : List Message) : Prop where
  read : FirstRead k tr tr₁
  log : log k s tr₁ = older ++ obtained pages
  more : lastMore pages = some true → older ≠ []
  done : lastMore pages = some false → ∀ message ∈ older, message ∉ buffer
  count : saved k tr = [] → lastMore pages = some true → pages.length ≤ (obtained pages).length
  stuck : obtained pages = [] → lastMore pages = some false

def Got (k : ChannelId) (s : Server)
    (tr : List (Event Server (Option ι) Call Call.Res (List ListMessages.Page)))
    (buffer : List Message) (pages : List ListMessages.Page) : Prop :=
  (pages = [] ∧ NoReads tr) ∨ (pages ≠ [] ∧ ∃ tr₁ older, Known k s tr buffer pages tr₁ older)

/-- A message of the log that is not retained will not be. -/
theorem not_retained_step {message : Message} {o : Call} {now : Server}
    (hnd : ((log k s (tr ++ [e])).map Message.id).Nodup) (hcall : e.call = o) (hlog : message ∈ log k s tr)
    (hno : message ∉ now.messages.buffer k) : message ∉ (handle o now).2.messages.buffer k := by
  intro hmem
  rcases List.mem_append.1 ((buffer_handle o now k).subset hmem) with h | h
  · exact hno h
  · rw [log_snoc, List.map_append, hcall] at hnd
    exact List.disjoint_of_nodup_append hnd (List.mem_map_of_mem hlog) (List.mem_map_of_mem h)

theorem Got.step {o : Call} {now : Server} (h : Got k s tr (now.messages.buffer k) pages)
    (hnd : ((log k s (tr ++ [e])).map Message.id).Nodup) (hcall : e.call = o)
    (hno : pages = [] → e.thread = none → ∀ o, e.call ≠ .messages o) :
    Got k s (tr ++ [e]) ((handle o now).2.messages.buffer k) pages := by
  rcases h with ⟨rfl, hreads⟩ | ⟨hne, tr₁, older, hh⟩
  · refine .inl ⟨rfl, fun e' he' hi => ?_⟩
    rcases List.mem_append.1 he' with he' | he'
    · exact hreads e' he' hi
    · obtain rfl := List.mem_singleton.1 he'
      exact hno rfl hi
  · refine .inr ⟨hne, tr₁, older, hh.read.snoc, hh.log, hh.more, fun hl message hmem => ?_, fun hs =>
      ?_, hh.stuck⟩
    · have hlog : message ∈ Bcmd.log k s tr := by
        obtain ⟨later, hlater⟩ := hh.read.log_eq (s := s)
        rw [hlater, hh.log]
        exact List.mem_append_left _ (List.mem_append_left _ hmem)
      exact not_retained_step hnd hcall hlog (hh.done hl message hmem)
    · rw [saved_snoc, List.append_eq_nil_iff] at hs
      exact hh.count hs.1

/-- The chain has read `page` and asks whether there is more. -/
structure Asked (k : ChannelId) (s : Server)
    (tr : List (Event Server (Option ι) Call Call.Res (List ListMessages.Page)))
    (pages : List ListMessages.Page) (page : List Message)
    (tr₁ : List (Event Server (Option ι) Call Call.Res (List ListMessages.Page)))
    (older : List Message) : Prop where
  read : FirstRead k tr tr₁
  log : log k s tr₁ = older ++ (page ++ obtained pages)
  count : saved k tr = [] → pages.length ≤ (obtained pages).length

theorem Asked.snoc {page older : List Message} (h : Asked k s tr pages page tr₁ older) :
    Asked k s (tr ++ [e]) pages page tr₁ older :=
  ⟨h.read.snoc, h.log, fun hs => h.count (List.append_eq_nil_iff.1 (saved_snoc.symm.trans hs)).1⟩

/-- What a read of the history leaves known: a page that is not empty is asked about, an empty one is
the last. -/
def AfterRead (k : ChannelId) (s : Server)
    (tr : List (Event Server (Option ι) Call Call.Res (List ListMessages.Page)))
    (buffer : List Message) (pages : List ListMessages.Page) (page : List Message) : Prop :=
  (page ≠ [] ∧ ∃ tr₁ older, Asked k s tr pages page tr₁ older) ∨
    (page = [] ∧ Got k s tr buffer (pages ++ [⟨[], false⟩]))

theorem afterRead_recent {now : Server} {n : UInt32} (hn : n ≠ 0) (hreads : NoReads tr) (hi : e.thread = none)
    (hcall : e.call = .messages (.recent k n)) (hbuf : now.messages.buffer k <:+ log k s tr) :
    AfterRead k s (tr ++ [e]) (now.messages.buffer k) [] (now.messages.recent k n) := by
  have hread : FirstRead k (tr ++ [e]) tr := ⟨hreads, e, [], n, rfl, hi, hcall⟩
  have hpage : now.messages.recent k n <:+ log k s tr := by
    rw [InMemoryMessageRepository.recent_eq]
    exact (List.drop_suffix _ _).trans hbuf
  obtain ⟨older, holder⟩ := hpage
  by_cases hempty : now.messages.recent k n = []
  · refine .inr ⟨hempty, .inr ⟨by simp, tr, older, hread, ?_, nofun, fun _ message _ => ?_, fun _ => nofun,
      fun _ => rfl⟩⟩
    · rw [← holder, hempty]; rfl
    · -- a page of at least one message is empty only if the buffer is
      have hn' : n.toNat ≠ 0 := fun h => hn (UInt32.toNat_inj.1 h)
      have hnil := congrArg List.length hempty
      rw [InMemoryMessageRepository.recent_eq] at hnil
      simp only [List.length_drop, List.length_nil] at hnil
      have hbuffer : now.messages.buffer k = [] := List.length_eq_zero_iff.1 (by omega)
      rw [hbuffer]
      exact List.not_mem_nil
  · exact .inl ⟨hempty, tr, older, hread, by rw [← holder]; simp [obtained], fun _ => by simp⟩

/-- Without saves, the log is what the buffer held at the start. -/
theorem Known.buffer_eq {buffer older : List Message} (hk : Known k s tr buffer pages tr₁ older)
    (hs : saved k tr = []) :
    s.messages.buffer k = older ++ obtained pages := by
  obtain ⟨-, e₁, tr₂, n, rfl, -, -⟩ := hk.read
  rw [saved_append, List.append_eq_nil_iff] at hs
  rw [← hk.log, Bcmd.log, hs.1, List.append_nil]

/-- Then nothing comes before what is known to be the last page. -/
theorem Known.older_eq_nil {buffer older : List Message} (hk : Known k s tr buffer pages tr₁ older)
    (hs : saved k tr = []) (hbuf : buffer = s.messages.buffer k) (hlast : lastMore pages = some false) :
    older = [] := by
  rcases older with _ | ⟨message, older⟩
  · rfl
  · refine absurd ?_ (hk.done hlast message (List.mem_cons_self ..))
    rw [hbuf, hk.buffer_eq hs]
    exact List.mem_append_left _ (List.mem_cons_self ..)

theorem afterRead_listBefore {now : Server} {n : UInt32} {x : MessageId} (hn : n ≠ 0)
    (hg : Got k s tr (now.messages.buffer k) pages) (hx : cursor pages = some x)
    (hcall : e.call = .messages (.listBefore k x n)) (hbuf : now.messages.buffer k <:+ log k s tr)
    (hsame : saved k tr = [] → now.messages.buffer k = s.messages.buffer k)
    (hnd : ((log k s tr).map Message.id).Nodup) :
    AfterRead k s (tr ++ [e]) (now.messages.buffer k) pages (now.messages.listBefore k x n) := by
  rcases hg with ⟨rfl, -⟩ | ⟨hne, tr₁, older, hk⟩
  · cases hx
  obtain ⟨a, hhead, rfl⟩ := Option.map_eq_some_iff.1 hx
  obtain ⟨got, hobt⟩ : ∃ got, obtained pages = a :: got := List.head?_eq_some_iff.1 hhead
  obtain ⟨later, hlater⟩ := hk.read.log_eq (s := s)
  have hlog : log k s tr = older ++ a :: (got ++ later) := by rw [hlater, hk.log, hobt]; simp
  have hsaved : saved k (tr ++ [e]) = saved k tr := by rw [saved_snoc, hcall]; simp [savedBy]
  rw [hlog] at hbuf hnd
  obtain ⟨⟨older', holder⟩, hnone⟩ := Window.before_window (n := n.toNat) hnd hbuf
  rw [InMemoryMessageRepository.listBefore_eq]
  by_cases hempty : Window.before Message.id a.id n.toNat (now.messages.buffer k) = []
  · refine .inr ⟨hempty, .inr ⟨by simp, tr₁, older, hk.read.snoc, ?_, by simp, fun _ => ?_, by simp, by simp⟩⟩
    · rw [hk.log, obtained_snoc]; rfl
    · exact hnone hempty fun h => hn (UInt32.toNat_inj.1 h)
  · refine .inl ⟨hempty, tr₁, older', hk.read.snoc, ?_, fun hs => ?_⟩
    · rw [hk.log, ← List.append_assoc, ← holder]
    · rw [hsaved] at hs
      rcases hl : lastMore pages with _ | _ | _
      · simp [lastMore, hne] at hl
      · rw [hk.older_eq_nil hs (hsame hs) hl] at holder
        exact absurd (List.append_eq_nil_iff.1 holder.symm).2 hempty
      · exact hk.count hs hl

theorem got_asked {now : Server} {a : Message} {page older : List Message}
    (hk : Asked k s tr pages (a :: page) tr₁ older) (hcall : e.call = .messages (.listBefore k a.id 1))
    (hbuf : now.messages.buffer k <:+ log k s tr) (hnd : ((log k s tr).map Message.id).Nodup) :
    Got k s (tr ++ [e]) (now.messages.buffer k)
      (pages ++ [⟨a :: page, ¬ (now.messages.listBefore k a.id 1).isEmpty⟩]) := by
  obtain ⟨later, hlater⟩ := hk.read.log_eq (s := s)
  have hlog : log k s tr = older ++ a :: (page ++ obtained pages ++ later) := by rw [hlater, hk.log]; simp
  have hsaved : saved k (tr ++ [e]) = saved k tr := by rw [saved_snoc, hcall]; simp [savedBy]
  rw [hlog] at hbuf hnd
  obtain ⟨⟨older', holder⟩, hnone⟩ := Window.before_window (n := (1 : UInt32).toNat) hnd hbuf
  refine .inr ⟨by simp, tr₁, older, hk.read.snoc, ?_, fun hmore => ?_, fun hmore => ?_, fun hs _ => ?_, ?_⟩
  · rw [hk.log, obtained_snoc]
  · rintro rfl
    have hnil := (List.append_eq_nil_iff.1 holder.symm).2
    rw [lastMore_snoc, InMemoryMessageRepository.listBefore_eq, hnil] at hmore
    simp at hmore
  · rw [lastMore_snoc, InMemoryMessageRepository.listBefore_eq] at hmore
    exact hnone (by simpa using hmore) (by decide)
  · rw [hsaved] at hs
    have hcount := hk.count hs
    rw [obtained_snoc]
    simp only [List.length_append, List.length_cons, List.length_nil]
    omega
  · rw [obtained_snoc]
    simp

/-- The pages used their limits. -/
abbrev Sized (pages : List ListMessages.Page) (used : List UInt32) : Prop :=
  List.Forall₂ (fun page limit => page.messages.length ≤ (min limit ListMessages.kServerMaxLimit).toNat)
    pages used

/-- Where the chain is. -/
inductive At (c : ClientId) (k : ChannelId) (limits : List UInt32) (s : Server)
    (tr : List (Event Server (Option ι) Call Call.Res (List ListMessages.Page)))
    (m : Config Server (Option ι) Call Call.Res (List ListMessages.Page)) : Prop
  | between (pages used rest) (hl : limits = used ++ rest) (hs : Sized pages used)
      (ht : m.threads none = chainFrom c k pages rest) (hg : Got k s tr (m.state.messages.buffer k) pages)
  | reading (pages used limit rest) (hl : limits = used ++ limit :: rest) (hs : Sized pages used)
      (ht : m.threads none = readPage c k pages rest limit) (hstop : ¬ (pages ≠ [] ∧ cursor pages = none))
      (hg : Got k s tr (m.state.messages.buffer k) pages)
  | asking (pages used limit rest a page) (hl : limits = used ++ limit :: rest) (hs : Sized pages used)
      (hsize : (a :: page).length ≤ (min limit ListMessages.kServerMaxLimit).toNat)
      (ht : m.threads none = afterRead c k pages rest (a :: page))
      (hg : ∃ tr₁ older, Asked k s tr pages (a :: page) tr₁ older)

section
variable {m : Config Server (Option ι) Call Call.Res (List ListMessages.Page)}

/-- After a read of the history the chain is between two calls or asks about the page. -/
theorem At.afterRead {tr' : List (Event Server (Option ι) Call Call.Res (List ListMessages.Page))}
    {used rest : List UInt32}
    {limit : UInt32} {page : List Message} (hl : limits = used ++ limit :: rest) (hs : Sized pages used)
    (hsize : page.length ≤ (min limit ListMessages.kServerMaxLimit).toNat)
    (ht : m.threads none = Bcmd.afterRead c k pages rest page)
    (h : AfterRead k s tr' (m.state.messages.buffer k) pages page) : At c k limits s tr' m := by
  rcases h with ⟨hne, hg⟩ | ⟨rfl, hg⟩
  · obtain ⟨a, page, rfl⟩ := List.exists_cons_of_ne_nil hne
    exact .asking pages used limit rest a page hl hs hsize ht hg
  · refine .between _ (used ++ [limit]) rest (by simp [hl]) ?_ ht hg
    exact List.rel_append hs (.cons hsize .nil)

variable [DecidableEq ι]

theorem At.other {i : ι} {o : Call} (h : At c k limits s tr m) (hn : (m.threads (some i)).next = some o)
    (hnd : ((log k s (tr ++ [⟨m, some i, o⟩])).map Message.id).Nodup) :
    At c k limits s (tr ++ [⟨m, some i, o⟩]) (m.advance ports (some i)) := by
  have hthread : (m.advance ports (some i)).threads none = m.threads none := Config.advance_threads_ne nofun
  have hgot : ∀ pages, Got k s tr (m.state.messages.buffer k) pages →
      Got k s (tr ++ [⟨m, some i, o⟩]) ((m.advance ports (some i)).state.messages.buffer k) pages := by
    intro pages hg
    rw [Config.advance_state hn]
    exact hg.step hnd rfl nofun
  rcases h with ⟨pages, used, rest, hl, hs, ht, hg⟩ | ⟨pages, used, limit, rest, hl, hs, ht, hstop, hg⟩ |
    ⟨pages, used, limit, rest, a, page, hl, hs, hsize, ht, tr₁, older, hg⟩
  · exact .between pages used rest hl hs (hthread.trans ht) (hgot pages hg)
  · exact .reading pages used limit rest hl hs (hthread.trans ht) hstop (hgot pages hg)
  · exact .asking pages used limit rest a page hl hs hsize (hthread.trans ht) ⟨tr₁, older, hg.snoc⟩

theorem At.chain {o : Call} (h : At c k limits s tr m) (hn : (m.threads none).next = some o)
    (hpos : ∀ l ∈ limits, l ≠ 0)
    (hmem : c ∈ m.state.members k) (hbuf : m.state.messages.buffer k <:+ log k s tr)
    (hsame : saved k tr = [] → m.state.messages.buffer k = s.messages.buffer k)
    (hnd : ((log k s (tr ++ [⟨m, none, o⟩])).map Message.id).Nodup) :
    At c k limits s (tr ++ [⟨m, none, o⟩]) (m.advance ports none) := by
  have hnd' : ((log k s tr).map Message.id).Nodup := by
    rw [log_snoc, List.map_append] at hnd
    exact (List.nodup_append.1 hnd).1
  rcases h with ⟨pages, used, rest, hl, hs, ht, hg⟩ | ⟨pages, used, limit, rest, hl, hs, ht, hstop, hg⟩ |
    ⟨pages, used, limit, rest, a, page, hl, hs, hsize, ht, tr₁, older, hg⟩
  · -- the channel is found, with its client
    rcases rest with _ | ⟨limit, rest⟩
    · rw [ht] at hn; cases hn
    by_cases hstop : pages ≠ [] ∧ cursor pages = none
    · rw [ht, chainFrom, if_pos hstop] at hn; cases hn
    rw [chainFrom_cons limit hstop] at ht
    rw [ht] at hn
    obtain rfl := Option.some.inj hn
    refine .reading pages used limit rest hl hs ?_ hstop ?_
    · rw [Config.advance_threads_self ht]
      rcases hch : m.state.channel k with _ | ch
      · rw [members_of_none hch] at hmem
        exact absurd hmem (Finset.notMem_empty c)
      · rw [members_of_channel hch] at hmem
        have hfind : (ports.handle (.channels (.findById k)) m.state).1 = (.ok ch : Result Channel) :=
          InMemoryChannelRepository.findById_ok.2 hch
        rw [hfind]
        exact if_pos (Channel.hasMember_iff.2 hmem)
    · rw [Config.advance_of_call ht]
      exact hg.step hnd rfl nofun
  · have hlimit : min limit ListMessages.kServerMaxLimit ≠ 0 := by
      show (if limit ≤ ListMessages.kServerMaxLimit then limit else ListMessages.kServerMaxLimit) ≠ 0
      split
      · exact hpos limit (by simp [hl])
      · decide
    unfold readPage at ht
    rcases hx : cursor pages with _ | x
    · obtain rfl : pages = [] := by
        by_contra hne
        exact hstop ⟨hne, hx⟩
      rcases hg with ⟨-, hreads⟩ | ⟨hne, -⟩
      · rw [hx] at ht
        rw [ht] at hn
        obtain rfl := Option.some.inj hn
        have hlen : (m.state.messages.recent k (min limit ListMessages.kServerMaxLimit)).length ≤
            (min limit ListMessages.kServerMaxLimit).toNat := by
          rw [InMemoryMessageRepository.recent_eq, List.length_drop]
          omega
        refine At.afterRead hl hs hlen (Config.advance_threads_self ht) ?_
        rw [Config.advance_of_call ht]
        exact afterRead_recent hlimit hreads rfl rfl hbuf
      · exact absurd rfl hne
    · rw [hx] at ht
      rw [ht] at hn
      obtain rfl := Option.some.inj hn
      have hlen : (m.state.messages.listBefore k x (min limit ListMessages.kServerMaxLimit)).length ≤
          (min limit ListMessages.kServerMaxLimit).toNat := by
        rw [InMemoryMessageRepository.listBefore_eq]
        exact Window.length_before_le x
      refine At.afterRead hl hs hlen (Config.advance_threads_self ht) ?_
      rw [Config.advance_of_call ht]
      exact afterRead_listBefore hlimit hg hx rfl hbuf hsame hnd'
  · rw [afterRead_cons] at ht
    rw [ht] at hn
    obtain rfl := Option.some.inj hn
    refine .between _ (used ++ [limit]) rest (by simp [hl]) (List.rel_append hs (.cons hsize .nil))
      (Config.advance_threads_self ht) ?_
    rw [Config.advance_of_call ht]
    exact got_asked hg rfl hbuf hnd'

/-! ### Runs -/

theorem chain_saves_no_channel (pages : List ListMessages.Page) (limits : List UInt32) :
    (chainFrom c k pages limits).Calls fun o => ∀ ch, o ≠ .channels (.save ch) := by
  induction limits generalizing pages with
  | nil => trivial
  | cons limit limits ih =>
    rw [chainFrom]
    split
    · trivial
    · refine .bind (calls_listMessages (fun _ => nofun) (fun _ _ => nofun) (fun _ _ _ => nofun) ..)
        fun r => ?_
      rcases r with e | page
      · trivial
      · exact ih _

variable {tr : List (Event Server (Option ι) Call Call.Res (List ListMessages.Page))}

theorem members_of_run (h : Run ports Env (paging c k limits sends s) tr m) :
    m.state.members k = s.members k := by
  refine h.state_inv (I := fun s' => s'.members k = s.members k) rfl (fun s₁ s₂ hs he => ?_)
    fun e he hs _ => ?_
  · rw [← hs]
    exact members_congr (by rw [channel, he.channels]; rfl)
  · have hsave : ∀ ch, e.call ≠ .channels (.save ch) := by
      rcases hi : e.thread with _ | i
      · exact (h.calls (i := none) (chain_saves_no_channel [] limits)).2 e he hi
      · exact ((h.calls (i := some i) (.bind (sends i).calls_run fun _ => trivial)).2 e he hi).ne_saveChannel
    exact (members_handle e.call hsave e.pre.state k).trans hs

theorem at_of_run (h : Run ports Env (paging c k limits sends s) tr m) (hmem : c ∈ s.members k)
    (hpos : ∀ l ∈ limits, l ≠ 0) (hnd : ((log k s tr).map Message.id).Nodup) : At c k limits s tr m := by
  have hstart : At c k limits s [] (paging c k limits sends s) :=
    .between [] [] limits rfl .nil rfl (.inl ⟨rfl, fun _ he => absurd he List.not_mem_nil⟩)
  revert hnd
  refine h.trace_inv (I := fun tr m => ((log k s tr).map Message.id).Nodup → At c k limits s tr m)
    (fun _ => hstart) (fun tr₁ m s' _ hm he hnd => ?_) fun tr₁ m i o h₁ hn _ hm hnd => ?_
  · rcases hm hnd with ⟨pages, used, rest, hl, hs, ht, hg⟩ |
      ⟨pages, used, limit, rest, hl, hs, ht, hstop, hg⟩ |
      ⟨pages, used, limit, rest, a, page, hl, hs, hsize, ht, hg⟩
    · exact .between pages used rest hl hs ht (by rw [he.messages]; exact hg)
    · exact .reading pages used limit rest hl hs ht hstop (by rw [he.messages]; exact hg)
    · exact .asking pages used limit rest a page hl hs hsize ht hg
  · have hnd' : ((log k s tr₁).map Message.id).Nodup := by
      rw [log_snoc, List.map_append] at hnd
      exact (List.nodup_append.1 hnd).1
    rcases i with _ | i
    · refine (hm hnd').chain hn hpos ?_ (buffer_suffix_log h₁) (buffer_of_saved_nil h₁) hnd
      rw [members_of_run h₁]
      exact hmem
    · exact (hm hnd').other hn hnd

/-- Whenever the chain is between two of its calls, its pages are the end of the log as it was at its first
read of the history. -/
theorem pages_of_run (h : Run ports Env (paging c k limits sends s) tr m) (hmem : c ∈ s.members k)
    (hpos : ∀ l ∈ limits, l ≠ 0) (hnd : ((log k s tr).map Message.id).Nodup) {rest : List UInt32}
    (hbetween : m.threads none = chainFrom c k pages rest) : Paged k limits s tr m pages := by
  obtain ⟨used, rest', hl, hs, ht, hg⟩ : ∃ used rest', limits = used ++ rest' ∧ Sized pages used ∧
      m.threads none = chainFrom c k pages rest' ∧ Got k s tr (m.state.messages.buffer k) pages := by
    rcases at_of_run h hmem hpos hnd with ⟨pages', used, rest', hl, hs, ht, hg⟩ |
      ⟨pages', used, limit, rest', hl, hs, ht, hstop, hg⟩ |
        ⟨pages', used, limit, rest', a, page, hl, hs, hsize, ht, hg⟩
    · obtain rfl := pages_of_chainFrom (hbetween.symm.trans ht)
      exact ⟨used, rest', hl, hs, ht, hg⟩
    · rw [hbetween, readPage] at ht
      split at ht
      · exact absurd ht chainFrom_ne_messages
      · exact absurd ht chainFrom_ne_messages
    · rw [hbetween] at ht
      exact absurd ht chainFrom_ne_messages
  have hsame : saved k tr = [] → m.state.messages.buffer k = s.messages.buffer k := buffer_of_saved_nil h
  have hwhole : saved k tr = [] → lastMore pages = some false → obtained pages = s.messages.buffer k := by
    intro hsaved hlast
    rcases hg with ⟨rfl, -⟩ | ⟨-, tr₁, older, hk⟩
    · cases hlast
    · rw [hk.buffer_eq hsaved, hk.older_eq_nil hsaved (hsame hsaved) hlast, List.nil_append]
  have hsoon : saved k tr = [] → lastMore pages = some true →
      pages.length < (s.messages.buffer k).length := by
    intro hsaved hlast
    rcases hg with ⟨rfl, -⟩ | ⟨-, tr₁, older, hk⟩
    · cases hlast
    have hcount := hk.count hsaved hlast
    have holder := List.length_pos_of_ne_nil (hk.more hlast)
    rw [hk.buffer_eq hsaved, List.length_append]
    omega
  refine ⟨fun hne => ?_, ?_, ⟨used, rest', hl, hs⟩, hwhole, fun hsaved hret hne hlen => ?_⟩
  · rcases hg with ⟨rfl, -⟩ | ⟨-, tr₁, older, hk⟩
    · exact absurd rfl hne
    · exact ⟨tr₁, older, hk.read, hk.log, hk.done⟩
  · rcases hg with ⟨rfl, -⟩ | ⟨-, tr₁, older, hk⟩
    · exact .nil
    obtain ⟨later, hlater⟩ := hk.read.log_eq (s := s)
    rw [hlater, hk.log, List.map_append, List.map_append] at hnd
    exact (List.nodup_append.1 (List.nodup_append.1 hnd).1).2.1
  · rcases hlast : lastMore pages with _ | _ | _
    · -- a chain with limits has made a call before it returns
      have hnil : pages = [] := by simpa [lastMore] using hlast
      subst hnil
      obtain rfl : used = [] := List.forall₂_nil_left_iff.1 hs
      rcases rest' with _ | ⟨limit, rest'⟩
      · exact absurd hl hne
      · rw [ht, chainFrom_cons limit (by simp)] at hret
        cases hret
    · rfl
    · have hlt := hsoon hsaved hlast
      rw [hs.length_eq] at hlt
      rcases rest' with _ | ⟨limit, rest'⟩
      · rw [hl, List.append_nil] at hlen
        omega
      · by_cases hstop : pages ≠ [] ∧ cursor pages = none
        · rcases hg with ⟨rfl, -⟩ | ⟨-, tr₁, older, hk⟩
          · exact absurd rfl hstop.1
          · have hnone : obtained pages = [] := by simpa [cursor] using hstop.2
            rw [hk.stuck hnone] at hlast
            cases hlast
        · rw [ht, chainFrom_cons limit hstop] at hret
          cases hret

end

end

/-! A history of two messages, read page by page while a third one is sent. -/

def twoSent : Host :=
  let send := Operation.sendMessage (ascii "00000000-0000-0000-0000-000000000002")
    (ascii "00000000-0000-0000-0000-000000000001") (ascii "hello")
  oneJoined.run .canonical .byId [send, send]

def browsing :=
  schedule ports (paging ⟨2⟩ ⟨1⟩ [1, 1] (fun _ : Unit => ⟨.byId, ⟨2⟩, ⟨1⟩, ascii "hi", .includeSender⟩)
    twoSent.server)
    (List.replicate 3 none ++ List.replicate 4 (some ()) ++ List.replicate 3 none)

theorem browsing_run :
    Run ports Env (paging ⟨2⟩ ⟨1⟩ [1, 1] (fun _ : Unit => ⟨.byId, ⟨2⟩, ⟨1⟩, ascii "hi", .includeSender⟩)
      twoSent.server)
      browsing.1 browsing.2 :=
  run_schedule ..

def browsed : List ListMessages.Page := (browsing.2.threads none).result.getD []

theorem pages_of_run_browsing : Paged ⟨1⟩ [1, 1] twoSent.server browsing.1 browsing.2 browsed := by
  have hret : browsing.2.threads none = chainFrom ⟨2⟩ ⟨1⟩ browsed [] :=
    Prog.result_eq_some.1 (by decide +kernel)
  exact pages_of_run browsing_run (by decide +kernel) (by simp) (by decide +kernel) hret

example : browsed.map (fun page => (page.messages.length, page.hasMore)) = [(1, true), (1, false)] := by
  decide +kernel

end Bcmd
