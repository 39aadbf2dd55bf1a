import IdtxCore.UsdFileLocator

/-!
# What `PercentDecode` accepts

`Escaped` is the grammar, read from left to right: every percent sign begins an escape of two hexadecimal digits, and
where an encoded slash is rejected no escape is one of a slash. `percentDecode` succeeds on these strings alone
(`isSome_percentDecode_iff`), and undoes every way to write a string of bytes with escapes (`percentDecode_encode`).
-/

namespace IdtxCore
namespace UsdFileLocator

def hexDigits : List Char := "0123456789abcdefABCDEF".toList

/-- The escapes of a slash, `%2f` and `%2F`. -/
def IsSlash (hi lo : Char) : Prop := hi = '2' ∧ (lo = 'f' ∨ lo = 'F')

instance (hi lo : Char) : Decidable (IsSlash hi lo) := inferInstanceAs (Decidable (_ ∧ _))

inductive Escaped (rejectEncodedSlash : Bool) : List Char → Prop where
  | nil : Escaped rejectEncodedSlash []
  | plain {c : Char} {s : List Char} : c ≠ '%' → Escaped rejectEncodedSlash s → Escaped rejectEncodedSlash (c :: s)
  | escape {hi lo : Char} {s : List Char} : hi ∈ hexDigits → lo ∈ hexDigits →
      (rejectEncodedSlash = true → ¬IsSlash hi lo) → Escaped rejectEncodedSlash s →
      Escaped rejectEncodedSlash ('%' :: hi :: lo :: s)

/-- The byte of two hexadecimal digits. -/
def byte (hi lo : Nat) : Char := .ofNat (hi <<< 4 ||| lo)

/-- The way to write a byte: as it is, or by an escape with each of its digits in lower or upper case. -/
inductive Style where
  | plain
  | escape (upperHi upperLo : Bool)
  deriving DecidableEq

def digit (upper : Bool) (n : Nat) : Char :=
  (if upper then "0123456789ABCDEF" else "0123456789abcdef").toList.getD n '0'

def encodeByte : Char × Style → List Char
  | (c, .plain) => [c]
  | (c, .escape upperHi upperLo) => ['%', digit upperHi (c.toNat / 16), digit upperLo (c.toNat % 16)]

def encode (pieces : List (Char × Style)) : List Char := pieces.flatMap encodeByte

/-- The ways to write a byte that `percentDecode` undoes. -/
def Faithful (plus reject : Bool) : Char × Style → Prop
  | (c, .plain) => c ≠ '%' ∧ (plus = true → c ≠ '+')
  | (c, .escape _ _) => reject = true → c ≠ '/'

instance (plus reject : Bool) : DecidablePred (Faithful plus reject)
  | (_, .plain) => inferInstanceAs (Decidable (_ ∧ _))
  | (_, .escape _ _) => inferInstanceAs (Decidable (_ → _))

variable {plus reject : Bool} {hi lo c : Char} {s : List Char}

/-! ### The loop -/

theorem percentDecode_truncated (h : s.length < 2) : percentDecode plus reject ('%' :: s) = none := by
  match s with
  | [] => rfl
  | [_] => rfl

theorem percentDecode_escape : percentDecode plus reject ('%' :: hi :: lo :: s) = (hex hi).bind fun h =>
    (hex lo).bind fun l => if reject && byte h l = '/' then none else (percentDecode plus reject s).map (byte h l :: ·) := by
  rw [percentDecode]
  cases hex hi with
  | none => rfl
  | some h =>
    cases hex lo with
    | none => rfl
    | some l =>
      simp only [Option.map_eq_bind]
      rfl

/-- How the loop goes over a string: by one character, or by three. -/
theorem escape_induction {motive : List Char → Prop} (nil : motive []) (plain : ∀ c s, c ≠ '%' → motive s → motive (c :: s))
    (truncated : ∀ s, s.length < 2 → motive ('%' :: s)) (escape : ∀ hi lo s, motive s → motive ('%' :: hi :: lo :: s))
    (s : List Char) : motive s := by
  induction hn : s.length using Nat.strong_induction_on generalizing s with
  | _ n ih =>
    cases s with
    | nil => exact nil
    | cons c s =>
      rw [List.length_cons] at hn
      by_cases hc : c = '%'
      · subst hc
        match s with
        | [] => exact truncated [] (by decide)
        | [lo] => exact truncated [lo] (by simp)
        | hi :: lo :: s => exact escape hi lo s (ih s.length (by simp only [List.length_cons] at hn; omega) s rfl)
      · exact plain c s hc (ih s.length (by omega) s rfl)

/-! ### What is accepted -/

theorem hex_eq_none_of_le (h : 128 ≤ c.toNat) : hex c = none := by
  have hbound : ∀ d : Char, d.toNat < 128 → ¬c ≤ d := fun d hd hle => absurd (show c.toNat ≤ d.toNat from hle) (by omega)
  unfold hex
  rw [if_neg fun hrange => hbound '9' (by decide) hrange.2, if_neg fun hrange => hbound 'F' (by decide) hrange.2,
    if_neg fun hrange => hbound 'f' (by decide) hrange.2]

theorem isSome_hex_iff : (hex c).isSome = true ↔ c ∈ hexDigits := by
  have hascii : ∀ n < 128, (hex (.ofNat n)).isSome = true ↔ Char.ofNat n ∈ hexDigits := by decide +kernel
  have hdigits : (hexDigits.all fun d => d.toNat < 128) = true := by decide
  by_cases hc : c.toNat < 128
  · have hiff := hascii c.toNat hc
    rwa [Char.ofNat_toNat] at hiff
  · rw [hex_eq_none_of_le (Nat.le_of_not_lt hc)]
    exact iff_of_false Bool.false_ne_true fun hmem => hc (of_decide_eq_true (List.all_eq_true.1 hdigits c hmem))

theorem byte_eq_slash_iff {h l : Nat} (hhi : hex hi = some h) (hlo : hex lo = some l) :
    byte h l = '/' ↔ IsSlash hi lo := by
  have hall : (hexDigits.all fun hi => hexDigits.all fun lo =>
      decide (byte ((hex hi).getD 0) ((hex lo).getD 0) = '/' ↔ IsSlash hi lo)) = true := by decide +kernel
  have hrow := List.all_eq_true.1 hall hi (isSome_hex_iff.1 (by rw [hhi]; rfl))
  have hiff := of_decide_eq_true (List.all_eq_true.1 hrow lo (isSome_hex_iff.1 (by rw [hlo]; rfl)))
  rwa [hhi, hlo] at hiff

theorem escaped_plain_iff (hc : c ≠ '%') : Escaped reject (c :: s) ↔ Escaped reject s := by
  constructor
  · rintro (_ | ⟨-, hs⟩ | _)
    · exact hs
    · exact absurd rfl hc
  · exact .plain hc

theorem escaped_escape_iff : Escaped reject ('%' :: hi :: lo :: s) ↔
    (hi ∈ hexDigits ∧ lo ∈ hexDigits) ∧ (reject = true → ¬IsSlash hi lo) ∧ Escaped reject s := by
  constructor
  · rintro (_ | ⟨hc, -⟩ | ⟨hhi, hlo, hslash, hs⟩)
    · exact absurd rfl hc
    · exact ⟨⟨hhi, hlo⟩, hslash, hs⟩
  · rintro ⟨⟨hhi, hlo⟩, hslash, hs⟩
    exact .escape hhi hlo hslash hs

theorem isSome_percentDecode_iff (s : List Char) : (percentDecode plus reject s).isSome = true ↔ Escaped reject s := by
  induction s using escape_induction with
  | nil => exact iff_of_true rfl .nil
  | plain c s hc ih => rw [percentDecode_plain hc, Option.isSome_map, escaped_plain_iff hc, ih]
  | truncated s hs =>
    rw [percentDecode_truncated hs]
    refine iff_of_false Bool.false_ne_true ?_
    rintro (_ | ⟨hc, -⟩ | _)
    · exact hc rfl
    · exact absurd hs (by simp)
  | escape hi lo s ih =>
    rw [percentDecode_escape, escaped_escape_iff, ← isSome_hex_iff, ← isSome_hex_iff, ← ih]
    cases hhi : hex hi with
    | none => simp
    | some h =>
      cases hlo : hex lo with
      | none => simp
      | some l =>
        rw [← byte_eq_slash_iff hhi hlo]
        simp only [Option.bind_some]
        split_ifs with hslash
        · obtain ⟨hon, heq⟩ := Bool.and_eq_true_iff.1 hslash
          exact iff_of_false Bool.false_ne_true fun h => h.2.1 hon (of_decide_eq_true heq)
        · have hnot : reject = true → byte h l ≠ '/' := fun hon heq =>
            hslash (Bool.and_eq_true_iff.2 ⟨hon, decide_eq_true heq⟩)
          rw [Option.isSome_map]
          exact ⟨fun hs => ⟨⟨rfl, rfl⟩, hnot, hs⟩, fun h => h.2.2⟩

/-! ### What is undone -/

theorem hex_digit (upper : Bool) : ∀ n < 16, hex (digit upper n) = some n := by
  cases upper <;> decide

theorem byte_div_mod (c : Char) : byte (c.toNat / 16) (c.toNat % 16) = c := by
  have hsum : (c.toNat / 16) <<< 4 ||| c.toNat % 16 = c.toNat := by
    rw [← Nat.shiftLeft_add_eq_or_of_lt (Nat.mod_lt _ (by decide)), Nat.shiftLeft_eq, Nat.div_add_mod']
  rw [byte, hsum, Char.ofNat_toNat]

theorem percentDecode_encodeByte {p : Char × Style} (hp : Faithful plus reject p) (hbyte : p.1.toNat < 256) :
    percentDecode plus reject (encodeByte p ++ s) = (percentDecode plus reject s).map (p.1 :: ·) := by
  obtain ⟨c, style⟩ := p
  cases style with
  | plain =>
    obtain ⟨hc, hplus⟩ := hp
    have hspace : ¬(c = '+' && plus) = true := by
      intro h
      obtain ⟨hc', hon⟩ := Bool.and_eq_true_iff.1 h
      exact hplus hon (of_decide_eq_true hc')
    show percentDecode plus reject (c :: s) = _
    rw [percentDecode_plain hc, if_neg hspace]
  | escape upperHi upperLo =>
    have hlt : c.toNat < 256 := hbyte
    have hhi := hex_digit upperHi (c.toNat / 16) (by omega)
    have hlo := hex_digit upperLo (c.toNat % 16) (by omega)
    have hslash : ¬(reject && decide (c = '/')) = true := by
      intro h
      obtain ⟨hon, hc⟩ := Bool.and_eq_true_iff.1 h
      exact hp hon (of_decide_eq_true hc)
    show percentDecode plus reject ('%' :: digit upperHi (c.toNat / 16) :: digit upperLo (c.toNat % 16) :: s) = _
    rw [percentDecode_escape, hhi, hlo]
    simp only [Option.bind_some]
    rw [byte_div_mod, if_neg hslash]

theorem percentDecode_encode {pieces : List (Char × Style)} (h : ∀ p ∈ pieces, Faithful plus reject p ∧ p.1.toNat < 256) :
    percentDecode plus reject (encode pieces) = some (pieces.map Prod.fst) := by
  induction pieces with
  | nil => rfl
  | cons p pieces ih =>
    obtain ⟨hp, hbyte⟩ := h p List.mem_cons_self
    show percentDecode plus reject (encodeByte p ++ encode pieces) = _
    rw [percentDecode_encodeByte hp hbyte, ih fun q hq => h q (List.mem_cons_of_mem _ hq)]
    rfl

/-- With either flag, the strings of the grammar are decoded and no others, and every way to write a string of bytes is
undone that escapes each percent sign, and each plus sign where that is a space, and leaves each slash where an encoded
one is rejected. -/
theorem percentDecode_exact (plus reject : Bool) :
    (∀ s, (percentDecode plus reject s).isSome = true ↔ Escaped reject s) ∧
      ∀ pieces : List (Char × Style), (∀ p ∈ pieces, p.1.toNat < 256) → (∀ p ∈ pieces, Faithful plus reject p) →
        percentDecode plus reject (encode pieces) = some (pieces.map Prod.fst) :=
  ⟨isSome_percentDecode_iff, fun _ hbytes hfaithful => percentDecode_encode fun p hp => ⟨hfaithful p hp, hbytes p hp⟩⟩

theorem percentDecode_exact_mixed :
    percentDecode true true (encode [('/', .plain), ('%', .escape true true), ('2', .plain), ('+', .escape false true),
      (.ofNat 255, .escape true false)]) = some ['/', '%', '2', '+', .ofNat 255] :=
  (percentDecode_exact true true).2 _ (by decide) (by decide)

/-- An escaped slash is refused where it is rejected, though every percent sign and plus sign is escaped. -/
theorem percentDecode_escaped_slash : encode [('/', .escape false true)] = "%2F".toList ∧
    percentDecode false true (encode [('/', .escape false true)]) = none := by
  decide

end UsdFileLocator
end IdtxCore
