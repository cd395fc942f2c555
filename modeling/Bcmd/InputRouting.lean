import Bcmd.FtxuiPresenter
import Bcmd.JoinByName
import Bcmd.ServerGateway

/-!
# What becomes of a submitted line

The presenter trims the line, the parser trims it again and looks for a command, and what is none goes as a
message through the trims of the gateway and the service to `MessageContent`, which has its own. All agree on
what the text is, so no command is sent as a message and no message is refused for its prefix.
-/

namespace Bcmd.Cli
open FtxuiPresenter

/-- A call that stays in the client. -/
def ActionCall.Local : ActionCall → Prop
  | sendMessage _ => False
  | _ => True

/-- The four things that can become of a line. -/
inductive Routed
  | nothing
  | command
  | unknownCommand
  | message
deriving DecidableEq

/-- The trimmed text is of this kind. -/
def Routed.Of (text : Bytes) : Routed → Prop
  | nothing => text = []
  | command => IsCommand text
  | unknownCommand => text.head? = some 47 ∧ ¬ IsCommand text
  | message => text ≠ [] ∧ text.head? ≠ some 47

/-- The submit empties the input and does this, and nothing else. -/
def FtxuiPresenter.Does (p : FtxuiPresenter) : Routed → Prop
  | .nothing => p.handleSubmit = ({ p with inputText := [] }, [])
  | .command => ∃ call : ActionCall, call.Local ∧ p.handleSubmit = ({ p with inputText := [] }, [call])
  | .unknownCommand =>
    p.handleSubmit = ({ p with inputText := [] }.showError (unknownCommand (trim p.inputText)), [])
  | .message => p.handleSubmit = ({ p with inputText := [] }, [.sendMessage (trim p.inputText)])

def FtxuiPresenter.Routes (p : FtxuiPresenter) (routed : Routed) : Prop :=
  routed.Of (trim p.inputText) ∧ p.Does routed

section
variable {p : FtxuiPresenter} {text : Bytes}

/-- The check before the switch never finds anything: what starts with a slash is parsed as something. -/
theorem slash_not_none (h : (parseCommand (trim p.inputText)).type = .none) :
    ¬ ascii "/" <+: trim p.inputText := by
  intro hslash
  rw [slash_prefix_iff, ← trim_trim] at hslash
  by_cases hcommand : IsCommand (trim (trim p.inputText))
  · exact (parseCommand_isCommand hcommand).2 h
  · rw [parseCommand_unknown hslash hcommand] at h
    cases h

theorem handleSubmit_eq (p : FtxuiPresenter) : p.handleSubmit =
    let parsed := parseCommand (trim p.inputText)
    let emptied := { p with inputText := [] }
    match parsed.type with
    | .join => (emptied, if p.actions.joinChannel then [.joinChannel parsed.arg] else [])
    | .create => (emptied, if p.actions.createChannel then [.createChannel parsed.arg] else [])
    | .quit => (emptied, [.exitLoop])
    | .leave => (emptied, if p.actions.leaveChannel then [.leaveChannel] else [])
    | .list => (emptied, if p.actions.listChannels then [.listChannels] else [])
    | .unknown => (emptied.showError (unknownCommand parsed.arg), [])
    | .none => (emptied, if trim p.inputText ≠ [] ∧ p.actions.sendMessage then
        [.sendMessage (trim p.inputText)] else []) := by
  unfold handleSubmit handleParsedCommandImpl
  dsimp only
  have hcheck : ¬ ((parseCommand (trim p.inputText)).type = .none ∧ trim p.inputText ≠ [] ∧
      ascii "/" <+: trim p.inputText) := fun ⟨hnone, _, hslash⟩ => slash_not_none hnone hslash
  refine (if_neg hcheck).trans ?_
  rfl

theorem routes_command (hactions : p.actions = .all) (h : IsCommand (trim p.inputText)) :
    p.Routes .command := by
  rw [← trim_trim] at h
  obtain ⟨hunknown, hnone⟩ := parseCommand_isCommand h
  rw [trim_trim] at h
  refine ⟨h, ?_⟩
  unfold FtxuiPresenter.Does
  rw [handleSubmit_eq, hactions]
  dsimp only [Actions.all]
  generalize parseCommand (trim p.inputText) = parsed at hunknown hnone ⊢
  obtain ⟨type, arg⟩ := parsed
  cases type with
  | join => exact ⟨.joinChannel arg, trivial, rfl⟩
  | create => exact ⟨.createChannel arg, trivial, rfl⟩
  | leave => exact ⟨.leaveChannel, trivial, rfl⟩
  | list => exact ⟨.listChannels, trivial, rfl⟩
  | quit => exact ⟨.exitLoop, trivial, rfl⟩
  | unknown => exact absurd rfl hunknown
  | none => exact absurd rfl hnone

theorem routes_unknownCommand (hslash : (trim p.inputText).head? = some 47)
    (h : ¬ IsCommand (trim p.inputText)) : p.Routes .unknownCommand := by
  refine ⟨⟨hslash, h⟩, ?_⟩
  unfold FtxuiPresenter.Does
  rw [handleSubmit_eq, parseCommand_unknown (by rwa [trim_trim]) (by rwa [trim_trim]), trim_trim]

/-- A text without a slash in front is a message, if it is one at all. -/
theorem handleSubmit_message (hactions : p.actions = .all) (hslash : (trim p.inputText).head? ≠ some 47) :
    p.handleSubmit = ({ p with inputText := [] },
      if trim p.inputText = [] then [] else [.sendMessage (trim p.inputText)]) := by
  rw [handleSubmit_eq, parseCommand_none (by rwa [trim_trim]), hactions]
  simp [Actions.all]

/-- The kinds exclude each other. -/
theorem Routed.Of.unique {a b : Routed} (ha : a.Of text) (hb : b.Of text) : a = b := by
  have hcommand : IsCommand text → text.head? = some 47 := IsCommand.slash
  have hnil : text = [] → text.head? = none := by
    rintro rfl
    rfl
  cases a <;> cases b <;> grind [Routed.Of]

end

/-! ### The server's side -/

/-- `MessageContent` trims as everything before it does, so it finds the text as it is. -/
theorem create_of_trimmed {text : Bytes} (htrim : trim text = text) (hne : text ≠ [])
    (hslash : text.head? ≠ some 47) : (MessageContent.create text).map MessageContent.value =
      if text.length > MessageContent.maxLength then .error .messageTooLong else .ok text := by
  have hown : MessageContent.trim text = text := htrim
  unfold MessageContent.create
  by_cases hlength : text.length > MessageContent.maxLength
  · simp [hown, hne, hlength, Except.map]
  · simp [hown, hne, hlength, hslash, Except.map]

/-- For every line, with the callbacks that `main` sets: exactly one of the four things becomes of it. A
message that is sent is the trimmed text, not empty and without a slash in front, and the content that the
server makes of the request is this text, unless it is too long; and the check for a slash before the switch
never finds any. -/
theorem submit_routes (p : FtxuiPresenter) (hactions : p.actions = .all) :
    (∃! routed, p.Routes routed) ∧
      (∀ text, ActionCall.sendMessage text ∈ p.handleSubmit.2 →
        text = trim p.inputText ∧ text ≠ [] ∧ text.head? ≠ some 47 ∧
        ∀ write clientId channelId, ∃ content,
          (GrpcServerGateway.sendMessage write clientId channelId text).next =
            some (.sendMessage (trim clientId) (trim channelId) content) ∧
          (MessageContent.create (trim content)).map MessageContent.value =
            if text.length > 4096 then .error .messageTooLong else .ok text) ∧
      ¬ ((parseCommand (trim p.inputText)).type = .none ∧ trim p.inputText ≠ [] ∧
        ascii "/" <+: trim p.inputText) := by
  have hnone : ¬ ((parseCommand (trim p.inputText)).type = .none ∧ trim p.inputText ≠ [] ∧
      ascii "/" <+: trim p.inputText) := fun ⟨hnone, _, hslash⟩ => slash_not_none hnone hslash
  by_cases hslash : (trim p.inputText).head? = some 47
  · by_cases hcommand : IsCommand (trim p.inputText)
    · have hroutes := routes_command hactions hcommand
      obtain ⟨call, hlocal, hsubmit⟩ := hroutes.2
      refine ⟨⟨.command, hroutes, fun _ h => h.1.unique hroutes.1⟩, fun text htext => ?_, hnone⟩
      rw [hsubmit, List.mem_singleton] at htext
      subst htext
      cases hlocal
    · have hroutes := routes_unknownCommand hslash hcommand
      refine ⟨⟨.unknownCommand, hroutes, fun _ h => h.1.unique hroutes.1⟩, fun text htext => ?_, hnone⟩
      rw [hroutes.2] at htext
      cases htext
  · have hsubmit := handleSubmit_message hactions hslash
    by_cases hnil : trim p.inputText = []
    · rw [if_pos hnil] at hsubmit
      have hroutes : p.Routes .nothing := ⟨hnil, hsubmit⟩
      refine ⟨⟨.nothing, hroutes, fun _ h => h.1.unique hroutes.1⟩, fun text htext => ?_, hnone⟩
      rw [hsubmit] at htext
      cases htext
    · rw [if_neg hnil] at hsubmit
      have hroutes : p.Routes .message := ⟨⟨hnil, hslash⟩, hsubmit⟩
      refine ⟨⟨.message, hroutes, fun _ h => h.1.unique hroutes.1⟩, fun text htext => ?_, hnone⟩
      obtain rfl : text = trim p.inputText := by simpa [hsubmit] using htext
      refine ⟨rfl, hnil, hslash, fun write clientId channelId => ⟨_, rfl, ?_⟩⟩
      -- what the gateway sends and the service trims is already trimmed
      rw [trim_trim, trim_trim, create_of_trimmed (trim_trim _) hnil hslash]
      rfl

theorem submit_routes_hello :
    ∃! routed, ({ FtxuiPresenter.initial.setActions .all with inputText := ascii " hello " }).Routes routed :=
  (submit_routes { FtxuiPresenter.initial.setActions .all with inputText := ascii " hello " } rfl).1

end Bcmd.Cli
