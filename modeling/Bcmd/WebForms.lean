import Bcmd.Lib.JsString
import Bcmd.Domain

/-!
# `schemas/`, `use-create-channel-dialog-view-model.ts`: what the forms ask of a text

A form has one text field. Its schema is `z.string()` with a chain of checks. The library that runs the chain
is a parameter, of which `Zod` says what it documents: each check is asked of what the ones before it leave,
and a text that passes them all is returned as they leave it.
-/

namespace Bcmd.Web

/-- A check of a string schema, with the message it was given; `none` is the library's own. -/
inductive Check
  | trim
  | min (length : Nat) (message : Option String)
  | max (length : Nat) (message : Option String)
  /-- `/^[..]+$/`, for the class in the brackets. -/
  | regex (charClass : UInt16 → Bool) (message : Option String)

/-- A `z.object` of one string field. -/
structure FormSchema where
  field : String
  checks : List Check

structure Issue where
  path : String
  message : Option String
deriving DecidableEq

namespace Check

def next : Check → JsString → JsString
  | trim, value => value.trim
  | _, value => value

/-- What fails. Lengths are in code units. -/
def failure : Check → JsString → List (Option String)
  | trim, _ => []
  | min length message, value => if length ≤ value.length then [] else [message]
  | max length message, value => if value.length ≤ length then [] else [message]
  | regex charClass message, value => if value ≠ [] ∧ value.all charClass then [] else [message]

end Check

/-- From `value`, the checks all pass, and leave `output`. -/
def Passes : List Check → JsString → JsString → Prop
  | [], value, output => output = value
  | check :: checks, value, output => check.failure value = [] ∧ Passes checks (check.next value) output

abbrev Parser := FormSchema → JsString → Except (List Issue) JsString

/-- What the library documents of these schemas. -/
def Zod (safeParse : Parser) : Prop :=
  ∀ schema input output, safeParse schema input = .ok output ↔ Passes schema.checks input output

/-- Every check is run, and every one that fails is reported. -/
def runChecks (field : String) : List Check → JsString → List Issue × JsString
  | [], value => ([], value)
  | check :: checks, value =>
    let rest := runChecks field checks (check.next value)
    ((check.failure value).map (Issue.mk field) ++ rest.1, rest.2)

def safeParse : Parser := fun schema input =>
  match runChecks schema.field schema.checks input with
  | ([], output) => .ok output
  | (issues, _) => .error issues

theorem runChecks_eq_nil_iff {field : String} {checks : List Check} {value output : JsString} :
    runChecks field checks value = ([], output) ↔ Passes checks value output := by
  induction checks generalizing value with
  | nil => simp [runChecks, Passes, eq_comm]
  | cons check checks ih =>
    rw [Passes, ← ih]
    simp [runChecks, Prod.ext_iff, and_assoc]

theorem safeParse_zod : Zod safeParse := by
  intro schema input output
  have hpasses := @runChecks_eq_nil_iff schema.field schema.checks input output
  rw [← hpasses, safeParse]
  rcases runChecks schema.field schema.checks input with ⟨_ | ⟨issue, issues⟩, value⟩ <;> simp

/-! ### The schemas -/

/-- `a-zA-Z0-9` -/
def isAlphanumeric (u : UInt16) : Bool :=
  (97 ≤ u && u ≤ 122) || (65 ≤ u && u ≤ 90) || (48 ≤ u && u ≤ 57)

def isUsernameChar (u : UInt16) : Bool := isAlphanumeric u || u == 95 || u == 45

/-- Letters, numbers, spaces, `_` and `-`. -/
def isChannelNameChar (u : UInt16) : Bool := isAlphanumeric u || u == 32 || u == 95 || u == 45

def UsernameInputSchema : FormSchema where
  field := "username"
  checks := [
    .min 1 (some "Username is required"),
    .max 32 none,
    .regex isUsernameChar (some "Only letters, numbers, _ and - allowed")]

def ChannelNameSchema : FormSchema where
  field := "channelName"
  checks := [
    .trim,
    .min 1 (some "Channel name is required"),
    .max 50 (some "Channel name must be 50 characters or fewer"),
    .regex isChannelNameChar (some "Only letters, numbers, spaces, _ and - allowed")]

def MessageContentSchema : FormSchema where
  field := "content"
  checks := [
    .trim,
    .min 1 (some "Message cannot be empty"),
    .max 2000 (some "Message too long")]

example : safeParse ChannelNameSchema (JsString.units " general ") = .ok (JsString.units "general") := by rfl

example : safeParse UsernameInputSchema (JsString.units "") = .error
    [⟨"username", some "Username is required"⟩,
      ⟨"username", some "Only letters, numbers, _ and - allowed"⟩] := by rfl

end Bcmd.Web
