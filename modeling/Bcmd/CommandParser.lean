import Bcmd.Shared

/-!
# `client-cli/`: `command_parser.hpp`
-/

namespace Bcmd.Cli

inductive CommandType
  | join
  | create
  | leave
  | list
  | quit
  | unknown
  | none
deriving DecidableEq

structure ParsedCommand where
  type : CommandType
  arg : Bytes
deriving DecidableEq

def joinPrefix : Bytes := ascii "/join "
def createPrefix : Bytes := ascii "/create "

def parseCommand (input : Bytes) : ParsedCommand :=
  let trimmed := trim input
  if joinPrefix <+: trimmed then ⟨.join, trim (trimmed.drop joinPrefix.length)⟩
  else if createPrefix <+: trimmed then ⟨.create, trim (trimmed.drop createPrefix.length)⟩
  else if trimmed = ascii "/leave" then ⟨.leave, []⟩
  else if trimmed = ascii "/list" then ⟨.list, []⟩
  else if trimmed = ascii "/quit" then ⟨.quit, []⟩
  else if ascii "/" <+: trimmed then ⟨.unknown, trimmed⟩
  else ⟨.none, []⟩

example : parseCommand (ascii "  /join   general ") = ⟨.join, ascii "general"⟩ := by decide
example : parseCommand (ascii "/join ") = ⟨.unknown, ascii "/join"⟩ := by decide

/-- A text without blanks around it that is a command. -/
def IsCommand (text : Bytes) : Prop :=
  joinPrefix <+: text ∨ createPrefix <+: text ∨ text = ascii "/leave" ∨ text = ascii "/list" ∨
    text = ascii "/quit"

section
variable {text input : Bytes}

theorem slash_prefix_iff : ascii "/" <+: text ↔ text.head? = some 47 := by
  rw [show ascii "/" = [47] from rfl]
  rcases text with _ | ⟨c, text⟩
  · simp
  · simp [List.cons_prefix_cons, eq_comm]

/-- Every command starts with a slash. -/
theorem IsCommand.slash (h : IsCommand text) : text.head? = some 47 := by
  have hjoin : ascii "/" <+: joinPrefix := by decide
  have hcreate : ascii "/" <+: createPrefix := by decide
  rcases h with h | h | rfl | rfl | rfl
  · exact slash_prefix_iff.1 (hjoin.trans h)
  · exact slash_prefix_iff.1 (hcreate.trans h)
  · decide
  · decide
  · decide

theorem parseCommand_isCommand (h : IsCommand (trim input)) :
    (parseCommand input).type ≠ .unknown ∧ (parseCommand input).type ≠ .none := by
  unfold parseCommand
  dsimp only
  split_ifs with hjoin hcreate hleave hlist hquit
  case pos | pos | pos | pos | pos => simp
  all_goals rcases h with h | h | h | h | h <;> contradiction

theorem parseCommand_of_not (h : ¬ IsCommand (trim input)) :
    parseCommand input = if ascii "/" <+: trim input then ⟨.unknown, trim input⟩ else ⟨.none, []⟩ := by
  unfold IsCommand at h
  push Not at h
  obtain ⟨hjoin, hcreate, hleave, hlist, hquit⟩ := h
  simp only [parseCommand, hjoin, hcreate, hleave, hlist, hquit, if_false]

theorem parseCommand_unknown (hslash : (trim input).head? = some 47) (h : ¬ IsCommand (trim input)) :
    parseCommand input = ⟨.unknown, trim input⟩ := by
  rw [parseCommand_of_not h, if_pos (slash_prefix_iff.2 hslash)]

theorem parseCommand_none (hslash : (trim input).head? ≠ some 47) : parseCommand input = ⟨.none, []⟩ := by
  rw [parseCommand_of_not fun h => hslash h.slash, if_neg fun h => hslash (slash_prefix_iff.1 h)]

end

end Bcmd.Cli
