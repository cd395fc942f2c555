import Bcmd.CommandParser
import Bcmd.Lib.Strip

/-!
# The grammar of the command line

`Reads` says what a text without blanks around it stands for; `parseCommand` reads a line as its grammar does,
after it has stripped it. No argument is empty: the blank of a prefix would be the end of a stripped line.
-/

namespace Bcmd.Cli

def Blank (text : Bytes) : Prop := ∀ c ∈ text, isspace c

/-- A text that starts and ends with something other than a blank. -/
structure Bare (text : Bytes) : Prop where
  nonempty : text ≠ []
  head : ∀ c, text.head? = some c → ¬ isspace c
  last : ∀ c, text.getLast? = some c → ¬ isspace c

/-- What a stripped line stands for. -/
inductive Reads : Bytes → ParsedCommand → Prop
  | join (rest : Bytes) : Reads (joinPrefix ++ rest) ⟨.join, trim rest⟩
  | create (rest : Bytes) : Reads (createPrefix ++ rest) ⟨.create, trim rest⟩
  | leave : Reads (ascii "/leave") ⟨.leave, []⟩
  | list : Reads (ascii "/list") ⟨.list, []⟩
  | quit : Reads (ascii "/quit") ⟨.quit, []⟩
  | unknown (text : Bytes) (hslash : text.head? = some 47) (h : ¬ IsCommand text) : Reads text ⟨.unknown, text⟩
  | none (text : Bytes) (hslash : text.head? ≠ some 47) : Reads text ⟨.none, []⟩

section
variable {input text rest name w w' w₁ w₂ w₃ : Bytes} {command command' : ParsedCommand}

/-! ### Stripping -/

theorem Bare.of_trim (h : trim text ≠ []) : Bare (trim text) :=
  ⟨h, fun _ hc => Strip.not_head hc, fun _ hc => Strip.not_last hc⟩

theorem Bare.trim_eq (h : Bare text) : trim text = text := Strip.eq_self h.head h.last

theorem trim_pad (text : Bytes) (hw : Blank w) (hw' : Blank w') : trim (w ++ text ++ w') = trim text :=
  Strip.pad hw hw'

/-! ### The grammar -/

theorem reads_parseCommand (input : Bytes) : Reads (trim input) (parseCommand input) := by
  unfold parseCommand
  dsimp only
  split_ifs with hjoin hcreate hleave hlist hquit hslash
  · obtain ⟨rest, hrest⟩ := hjoin
    rw [← hrest, List.drop_left]
    exact .join rest
  · obtain ⟨rest, hrest⟩ := hcreate
    rw [← hrest, List.drop_left]
    exact .create rest
  · rw [hleave]
    exact .leave
  · rw [hlist]
    exact .list
  · rw [hquit]
    exact .quit
  · refine .unknown _ (slash_prefix_iff.1 hslash) ?_
    rintro (h | h | h | h | h) <;> contradiction
  · exact .none _ fun h => hslash (slash_prefix_iff.2 h)

/-- A text is read in one way. -/
theorem parseCommand_of_reads (h : Reads text command) (htext : trim input = text) :
    parseCommand input = command := by
  unfold parseCommand
  dsimp only
  rw [htext]
  cases h with
  | join rest => rw [if_pos (List.prefix_append ..), List.drop_left]
  | create rest =>
    have hjoin : ¬ joinPrefix <+: createPrefix ++ rest := by
      simp [joinPrefix, createPrefix, ascii, List.cons_prefix_cons]
    rw [if_neg hjoin, if_pos (List.prefix_append ..), List.drop_left]
  | leave => rfl
  | list => rfl
  | quit => rfl
  | unknown text hslash h =>
    rw [← htext] at hslash h ⊢
    exact parseCommand_unknown hslash h
  | none text hslash =>
    rw [← htext] at hslash ⊢
    exact parseCommand_none hslash

theorem parseCommand_iff : parseCommand input = command ↔ Reads (trim input) command := by
  constructor
  · rintro rfl
    exact reads_parseCommand input
  · intro h
    exact parseCommand_of_reads h rfl

/-- The rest of a stripped line is not blank after a prefix that ends in a blank. -/
theorem trim_rest_ne_nil (pre : Bytes) (hpre : pre.getLast? = some 32) (h : trim input = pre ++ rest) :
    trim rest ≠ [] := by
  intro hnil
  have hblank : ∀ c, rest.getLast? = some c → isspace c := by
    intro c hc
    exact Strip.forall_of_eq_nil hnil c (List.mem_of_getLast? hc)
  have hlast : ∃ c, (pre ++ rest).getLast? = some c ∧ isspace c := by
    rcases hrest : rest.getLast? with _ | c
    · refine ⟨32, ?_, by decide⟩
      simp [List.getLast?_append, hrest, hpre]
    · refine ⟨c, ?_, hblank c hrest⟩
      simp [List.getLast?_append, hrest]
  obtain ⟨c, hc, hspace⟩ := hlast
  rw [← h] at hc
  exact Strip.not_last hc hspace

theorem bare_of_reads (h : Reads text command) (htext : trim input = text)
    (hargument : command.type = .join ∨ command.type = .create) : Bare command.arg := by
  cases h with
  | join rest => exact .of_trim (trim_rest_ne_nil joinPrefix (by decide) htext)
  | create rest => exact .of_trim (trim_rest_ne_nil createPrefix (by decide) htext)
  | leave | list | quit | unknown text hslash h | none text hslash => simp at hargument

/-- Any blanks may stand around a command, and between its word and its argument. -/
theorem reads_join (hname : Bare name) (hw₁ : Blank w₁) (hw₂ : Blank w₂) (hw₃ : Blank w₃) :
    Reads (trim (w₁ ++ joinPrefix ++ w₂ ++ name ++ w₃)) ⟨.join, name⟩ := by
  have hbare : Bare (joinPrefix ++ (w₂ ++ name)) := by
    constructor
    · simp [joinPrefix, ascii]
    · intro c hc
      have hslash : c = 47 := by simpa [joinPrefix, ascii, eq_comm] using hc
      rw [hslash]
      decide
    · intro c hc
      rw [← List.append_assoc, List.getLast?_append_of_ne_nil _ hname.nonempty] at hc
      exact hname.last c hc
  have hline : trim (w₁ ++ joinPrefix ++ w₂ ++ name ++ w₃) = joinPrefix ++ (w₂ ++ name) := by
    have hassoc : w₁ ++ joinPrefix ++ w₂ ++ name ++ w₃ = w₁ ++ (joinPrefix ++ (w₂ ++ name)) ++ w₃ := by simp
    rw [hassoc, trim_pad _ hw₁ hw₃, hbare.trim_eq]
  have hrest : trim (w₂ ++ name) = name := by
    have hnil : Blank [] := by simp [Blank]
    have hpad := trim_pad name hw₂ hnil
    rw [List.append_nil] at hpad
    rw [hpad, hname.trim_eq]
  have hreads := Reads.join (w₂ ++ name)
  rw [hrest, ← hline] at hreads
  exact hreads

end

/-- `parseCommand` accepts its grammar: a line is read as `Reads` says, an argument is never empty and has no
blanks around it, blanks around the line do not matter, and blanks around the name in `/join` do not either. -/
theorem parseCommand_grammar :
    (∀ input command, parseCommand input = command ↔ Reads (trim input) command) ∧
    (∀ input, (parseCommand input).type = .join ∨ (parseCommand input).type = .create →
      Bare (parseCommand input).arg) ∧
    (∀ input w w', Blank w → Blank w' → parseCommand (w ++ input ++ w') = parseCommand input) ∧
    ∀ name w₁ w₂ w₃, Bare name → Blank w₁ → Blank w₂ → Blank w₃ →
      parseCommand (w₁ ++ joinPrefix ++ w₂ ++ name ++ w₃) = ⟨.join, name⟩ := by
  refine ⟨?_, ?_, ?_, ?_⟩
  · intro input command
    exact parseCommand_iff
  · intro input hargument
    exact bare_of_reads (reads_parseCommand input) rfl hargument
  · intro input w w' hw hw'
    rw [parseCommand_iff, trim_pad _ hw hw']
    exact reads_parseCommand input
  · intro name w₁ w₂ w₃ hname hw₁ hw₂ hw₃
    exact parseCommand_iff.2 (reads_join hname hw₁ hw₂ hw₃)

/-- A name between blanks and tabs. -/
theorem parseCommand_grammar_join :
    parseCommand (ascii " " ++ joinPrefix ++ ascii "\t " ++ ascii "general" ++ ascii "  ") =
      ⟨.join, ascii "general"⟩ := by
  have hname : Bare (trim (ascii "general")) := .of_trim (by decide)
  exact parseCommand_grammar.2.2.2 (ascii "general") (ascii " ") (ascii "\t ") (ascii "  ") hname
    (List.all_eq_true.1 (by decide)) (List.all_eq_true.1 (by decide)) (List.all_eq_true.1 (by decide))

end Bcmd.Cli
