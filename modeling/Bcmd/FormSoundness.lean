import Bcmd.Lib.Strip
import Bcmd.WebForms

/-!
# The forms against the server's value objects

`form_sound_iff` says for which texts what passes a form is what the server accepts. The username form asks
for what `Username` does. The other two let through more: a channel name with a space or an underscore, a
message that starts with a slash, and one of at most 2000 code units that takes more than 4096 bytes. A text
that the form has trimmed keeps its bytes when the server trims it (`messageContent_trim_utf8`).
-/

namespace Bcmd.Web
open JsString (utf8)

section
variable {u : UInt16} {s output : JsString} {n : Nat}

/-! ### What passes each schema -/

theorem passes_UsernameInputSchema : Passes UsernameInputSchema.checks s output ↔
    output = s ∧ 1 ≤ s.length ∧ s.length ≤ 32 ∧ ∀ u ∈ s, isUsernameChar u := by
  simp [UsernameInputSchema, Passes, Check.failure, Check.next]
  grind

theorem passes_ChannelNameSchema : Passes ChannelNameSchema.checks s output ↔
    output = s.trim ∧ 1 ≤ s.trim.length ∧ s.trim.length ≤ 50 ∧ ∀ u ∈ s.trim, isChannelNameChar u := by
  simp [ChannelNameSchema, Passes, Check.failure, Check.next]
  grind

theorem passes_MessageContentSchema : Passes MessageContentSchema.checks s output ↔
    output = s.trim ∧ 1 ≤ s.trim.length ∧ s.trim.length ≤ 2000 := by
  simp [MessageContentSchema, Passes, Check.failure, Check.next]
  grind

/-! ### Units and bytes -/

theorem toNat_lt_of_isChannelNameChar (h : isChannelNameChar u) : u.toNat < 128 := by
  simp [isChannelNameChar, isAlphanumeric, UInt16.le_iff_toNat_le, ← UInt16.toNat_inj] at h
  omega

theorem isChannelNameChar_of_isUsernameChar (h : isUsernameChar u) : isChannelNameChar u := by
  simp [isUsernameChar, isChannelNameChar] at *
  tauto

theorem isalnum_toUInt8 (hu : u.toNat < 128) : isalnum u.toUInt8 = isAlphanumeric u := by
  have hbyte : u.toUInt8.toNat = u.toNat := by simp; omega
  simp only [isalnum, isAlphanumeric, UInt8.le_iff_toNat_le, UInt16.le_iff_toNat_le, hbyte]
  rw [Bool.eq_iff_iff]
  simp
  omega

theorem toUInt8_eq_iff (hu : u.toNat < 128) (hn : n < 128) :
    u.toUInt8 = UInt8.ofNat n ↔ u = UInt16.ofNat n := by
  rw [← UInt8.toNat_inj, ← UInt16.toNat_inj]
  simp
  omega

theorem username_isAllowedChar (hu : u.toNat < 128) :
    Username.isAllowedChar u.toUInt8 = isUsernameChar u := by
  have h95 : u.toUInt8 = 95 ↔ u = 95 := toUInt8_eq_iff (n := 95) hu (by omega)
  have h45 : u.toUInt8 = 45 ↔ u = 45 := toUInt8_eq_iff (n := 45) hu (by omega)
  rw [Bool.eq_iff_iff]
  simp [Username.isAllowedChar, isUsernameChar, isalnum_toUInt8 hu, h95, h45]

/-- Of what the dialog lets through, the server refuses the space and the underscore. -/
theorem channelName_isAllowedChar (h : isChannelNameChar u) :
    ChannelName.isAllowedChar u.toUInt8 ↔ u ≠ 32 ∧ u ≠ 95 := by
  have hu := toNat_lt_of_isChannelNameChar h
  have h45 : u.toUInt8 = 45 ↔ u = 45 := toUInt8_eq_iff (n := 45) hu (by omega)
  simp only [ChannelName.isAllowedChar, isalnum_toUInt8 hu, Bool.or_eq_true, beq_iff_eq, h45]
  simp only [isChannelNameChar, Bool.or_eq_true, beq_iff_eq] at h
  constructor
  · intro hallowed
    constructor <;> rintro rfl <;> simp [isAlphanumeric] at hallowed
  · tauto

theorem not_isspace_of_isUsernameChar (h : isUsernameChar u) : ¬ isspace u.toUInt8 := by
  have hu := toNat_lt_of_isChannelNameChar (isChannelNameChar_of_isUsernameChar h)
  simp [isUsernameChar, isAlphanumeric, UInt16.le_iff_toNat_le, ← UInt16.toNat_inj] at h
  simp [isspace, UInt8.le_iff_toNat_le, ← UInt8.toNat_inj]
  omega

/-! ### What the server says -/

theorem username_sound (hlength : 1 ≤ s.length ∧ s.length ≤ 32) (hchars : ∀ u ∈ s, isUsernameChar u) :
    (Username.create (Bcmd.trim (utf8 s))).isSome := by
  have hascii : ∀ u ∈ s, u.toNat < 128 := fun u hu =>
    toNat_lt_of_isChannelNameChar (isChannelNameChar_of_isUsernameChar (hchars u hu))
  have hspace : ∀ c ∈ s.map UInt16.toUInt8, ¬ isspace c := by
    intro c hc
    obtain ⟨u, hu, rfl⟩ := List.mem_map.1 hc
    exact not_isspace_of_isUsernameChar (hchars u hu)
  have htrim : Bcmd.trim (utf8 s) = s.map UInt16.toUInt8 := by
    rw [JsString.utf8_of_ascii hascii]
    exact Strip.eq_self (fun c hc => hspace c (List.mem_of_head? hc))
      (fun c hc => hspace c (List.mem_of_getLast? hc))
  have hvalid : Username.Valid (s.map UInt16.toUInt8) := by
    refine ⟨by rw [List.length_map, Username.minLength, Username.maxLength]; omega, ?_⟩
    intro c hc
    obtain ⟨u, hu, rfl⟩ := List.mem_map.1 hc
    rw [username_isAllowedChar (hascii u hu)]
    exact hchars u hu
  rw [htrim, Username.create, dif_pos hvalid]
  rfl

theorem channelName_sound_iff (hlength : 1 ≤ s.length ∧ s.length ≤ 50)
    (hchars : ∀ u ∈ s, isChannelNameChar u) :
    (ChannelName.create (utf8 s)).isSome ↔ 32 ∉ s ∧ 95 ∉ s := by
  have hutf8 : utf8 s = s.map UInt16.toUInt8 :=
    JsString.utf8_of_ascii fun u hu => toNat_lt_of_isChannelNameChar (hchars u hu)
  have hsome : (ChannelName.create (utf8 s)).isSome ↔ ChannelName.Valid (utf8 s) := by
    unfold ChannelName.create
    split
    · exact iff_of_true rfl ‹_›
    · exact iff_of_false (by simp) ‹_›
  have hallowed : (∀ u ∈ s, ChannelName.isAllowedChar u.toUInt8) ↔ ∀ u ∈ s, u ≠ 32 ∧ u ≠ 95 :=
    forall₂_congr fun u hu => channelName_isAllowedChar (hchars u hu)
  have hbounds : ¬ (s.length < ChannelName.minLength ∨ s.length > ChannelName.maxLength) := by
    unfold ChannelName.minLength ChannelName.maxLength
    omega
  rw [hsome, ChannelName.Valid, hutf8, List.length_map, List.forall_mem_map, hallowed]
  constructor
  · rintro ⟨-, h⟩
    exact ⟨fun hmem => (h 32 hmem).1 rfl, fun hmem => (h 95 hmem).2 rfl⟩
  · rintro ⟨h32, h95⟩
    exact ⟨hbounds, fun u hu => ⟨fun h => h32 (h ▸ hu), fun h => h95 (h ▸ hu)⟩⟩

theorem isWhiteSpace_of_isspace {b : UInt8} (hu : u.toNat = b.toNat) (h : isspace b) :
    JsString.isWhiteSpace u := by
  simp [isspace, UInt8.le_iff_toNat_le, ← UInt8.toNat_inj] at h
  simp [JsString.isWhiteSpace, UInt16.le_iff_toNat_le, ← UInt16.toNat_inj]
  omega

/-- What the form has trimmed, the server does not trim again. -/
theorem messageContent_trim_utf8 (s : JsString) : MessageContent.trim (utf8 s.trim) = utf8 s.trim := by
  have hascii : ∀ b : UInt8, isspace b → b.toNat < 128 := by
    intro b hb
    simp [isspace, UInt8.le_iff_toNat_le, ← UInt8.toNat_inj] at hb
    omega
  apply Strip.eq_self
  · intro b hb hspace
    have hunit := (JsString.head?_utf8 (hascii b hspace)).1 (by rw [hb]; rfl)
    obtain ⟨u, hu, hub⟩ := Option.map_eq_some_iff.1 hunit
    exact Strip.not_head hu (isWhiteSpace_of_isspace hub hspace)
  · intro b hb hspace
    have hunit := (JsString.getLast?_utf8 (hascii b hspace)).1 (by rw [hb]; rfl)
    obtain ⟨u, hu, hub⟩ := Option.map_eq_some_iff.1 hunit
    exact Strip.not_last hu (isWhiteSpace_of_isspace hub hspace)

theorem head?_utf8_eq_slash : (utf8 s).head? = some 47 ↔ s.head? = some 47 := by
  have hbyte (o : Option UInt8) : o = some 47 ↔ o.map UInt8.toNat = some 47 := by
    cases o <;> simp [← UInt8.toNat_inj]
  have hunit (o : Option UInt16) : o = some 47 ↔ o.map UInt16.toNat = some 47 := by
    cases o <;> simp [← UInt16.toNat_inj]
  rw [hbyte, hunit, JsString.head?_utf8 (by omega)]

theorem messageContent_sound_iff (hlength : 1 ≤ s.trim.length) :
    (∃ content, MessageContent.create (utf8 s.trim) = .ok content) ↔
      s.trim.head? ≠ some 47 ∧ (utf8 s.trim).length ≤ 4096 := by
  have hne : utf8 s.trim ≠ [] := by
    rw [Ne, JsString.utf8_eq_nil_iff]
    exact List.ne_nil_of_length_pos hlength
  rw [Ne, ← head?_utf8_eq_slash]
  simp only [MessageContent.create, messageContent_trim_utf8, MessageContent.maxLength, dif_neg hne]
  constructor
  · rintro ⟨content, h⟩
    split at h
    · cases h
    · split at h
      · cases h
      · exact ⟨‹_›, Nat.le_of_not_lt ‹_›⟩
  · rintro ⟨hslash, hbytes⟩
    rw [dif_neg (Nat.not_lt_of_le hbytes), dif_neg hslash]
    exact ⟨_, rfl⟩

end

/-- What passes the form is accepted by the value object it is for. -/
def FormSound (safeParse : Parser) (s : JsString) : Prop :=
  (∀ output, safeParse UsernameInputSchema s = .ok output → (Username.create (Bcmd.trim (utf8 s))).isSome) ∧
  (∀ output, safeParse ChannelNameSchema s = .ok output → (ChannelName.create (utf8 output)).isSome) ∧
  ∀ output, safeParse MessageContentSchema s = .ok output →
    ∃ content, MessageContent.create (utf8 output) = .ok content

/-- At most 50 of the dialog's characters, and not all of them the server's. -/
def LooseName (name : JsString) : Prop :=
  name.length ≤ 50 ∧ (∀ u ∈ name, isChannelNameChar u) ∧ (32 ∈ name ∨ 95 ∈ name)

instance : DecidablePred LooseName := fun name =>
  @instDecidableAnd _ _ inferInstance
    (@instDecidableAnd _ _ (List.decidableBAll (isChannelNameChar · = true) name) inferInstance)

/-- At most 2000 code units, with a slash in front or more than 4096 bytes long. -/
def LooseContent (content : JsString) : Prop :=
  content.length ≤ 2000 ∧ (content.head? = some 47 ∨ 4096 < (utf8 content).length)

instance : DecidablePred LooseContent := fun _ => inferInstanceAs (Decidable (_ ∧ _))

section
variable {safeParse : Parser} {s : JsString}

theorem usernameForm_sound (hzod : Zod safeParse) :
    ∀ output, safeParse UsernameInputSchema s = .ok output →
      (Username.create (Bcmd.trim (utf8 s))).isSome := by
  intro output h
  rw [hzod, passes_UsernameInputSchema] at h
  obtain ⟨-, hmin, hmax, hchars⟩ := h
  exact username_sound ⟨hmin, hmax⟩ hchars

theorem channelNameForm_sound_iff (hzod : Zod safeParse) :
    (∀ output, safeParse ChannelNameSchema s = .ok output → (ChannelName.create (utf8 output)).isSome) ↔
      ¬ LooseName s.trim := by
  simp only [hzod _ _ _, passes_ChannelNameSchema]
  constructor
  · rintro h ⟨hmax, hchars, hloose⟩
    have hmin : 1 ≤ s.trim.length := by
      rcases hloose with hmem | hmem <;> exact List.length_pos_of_mem hmem
    have hstrict := (channelName_sound_iff ⟨hmin, hmax⟩ hchars).1 (h _ ⟨rfl, hmin, hmax, hchars⟩)
    tauto
  · rintro h output ⟨rfl, hmin, hmax, hchars⟩
    rw [channelName_sound_iff ⟨hmin, hmax⟩ hchars]
    exact ⟨fun hmem => h ⟨hmax, hchars, .inl hmem⟩, fun hmem => h ⟨hmax, hchars, .inr hmem⟩⟩

theorem messageForm_sound_iff (hzod : Zod safeParse) :
    (∀ output, safeParse MessageContentSchema s = .ok output →
      ∃ content, MessageContent.create (utf8 output) = .ok content) ↔ ¬ LooseContent s.trim := by
  simp only [hzod _ _ _, passes_MessageContentSchema]
  constructor
  · rintro h ⟨hmax, hloose⟩
    have hne : s.trim ≠ [] := by
      intro hnil
      simp [hnil, utf8, JsString.chars] at hloose
    have hmin : 1 ≤ s.trim.length := List.length_pos_iff.2 hne
    obtain ⟨hslash, hbytes⟩ := (messageContent_sound_iff hmin).1 (h _ ⟨rfl, hmin, hmax⟩)
    rcases hloose with hloose | hloose
    · exact hslash hloose
    · omega
  · rintro h output ⟨rfl, hmin, hmax⟩
    rw [messageContent_sound_iff hmin]
    exact ⟨fun hslash => h ⟨hmax, .inl hslash⟩, Nat.le_of_not_lt fun hbytes => h ⟨hmax, .inr hbytes⟩⟩

end

theorem form_sound_iff (safeParse : Parser) (hzod : Zod safeParse) (s : JsString) :
    FormSound safeParse s ↔ ¬ LooseName s.trim ∧ ¬ LooseContent s.trim := by
  rw [FormSound, channelNameForm_sound_iff hzod, messageForm_sound_iff hzod]
  constructor
  · rintro ⟨-, hforms⟩
    exact hforms
  · intro hforms
    exact ⟨usernameForm_sound hzod, hforms⟩

theorem form_sound_iff_general : FormSound safeParse (JsString.units " general ") :=
  (form_sound_iff safeParse safeParse_zod _).2 ⟨by decide, by decide⟩

/-- The dialog's own message allows the space that the server refuses, and the composer takes a slash. -/
theorem form_unsound :
    ¬ FormSound safeParse (JsString.units "a b") ∧ ¬ FormSound safeParse (JsString.units "/x") := by
  constructor
  · rintro ⟨-, hname, -⟩
    have hsome := hname (JsString.units "a b") rfl
    have hnone : ChannelName.create (utf8 (JsString.units "a b")) = none := by decide
    rw [hnone] at hsome
    cases hsome
  · rintro ⟨-, -, hcontent⟩
    obtain ⟨content, hok⟩ := hcontent (JsString.units "/x") rfl
    have herror : MessageContent.create (utf8 (JsString.units "/x")) = .error .messageInvalidPrefix := by
      decide
    rw [herror] at hok
    cases hok

end Bcmd.Web
