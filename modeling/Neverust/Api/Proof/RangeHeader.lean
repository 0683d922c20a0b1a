import Neverust.Api.Range

/-!
# Byte ranges as RFC 7233 has them

`RangeSpec`: a single byte range of the RFC, with its text and the range it prescribes.

* `parseRangeHeader_of_parts`: what the parser makes of the two parts of a header.
* `conforms_iff`: where the parser does what the RFC says. It does not for a last position that is
  the largest `usize`, and it has no suffix ranges.
-/

namespace Api

open Rust

/-! ## The ranges of the RFC -/

/-- Decimal digits that denote a `usize`. -/
structure Numeral where
  digits : List Char
  ne_nil : digits ≠ []
  isDigit : digits.all Char.isDigit
  lt : ofDigits digits < usizeSize

def Numeral.value (n : Numeral) : Nat := ofDigits n.digits

/-- `first-last`, `first-` and `-length`. -/
inductive RangeSpec
  | fromTo (first last : Numeral)
  | onward (first : Numeral)
  | suffix (length : Numeral)

namespace RangeSpec

/-- What stands before and after the dash. -/
def parts : RangeSpec → List Char × List Char
  | fromTo first last => (first.digits, last.digits)
  | onward first => (first.digits, [])
  | suffix length => ([], length.digits)

/-- The header. -/
def text (r : RangeSpec) : String :=
  String.ofList (rangeUnit ++ (r.parts.1 ++ '-' :: r.parts.2))

/-- The range of a representation of `total` bytes, if there is one: positions past its end do not
count, and a suffix that is longer than it is all of it. -/
def prescribed (total : Nat) : RangeSpec → Option (Nat × Nat)
  | fromTo first last =>
    if first.value ≤ last.value ∧ first.value < total then
      some (first.value, min (last.value + 1) total)
    else none
  | onward first => if first.value < total then some (first.value, total) else none
  | suffix length =>
    if 0 < length.value ∧ 0 < total then some (total - min length.value total, total) else none

end RangeSpec

/-! ## The parts of a header -/

theorem stripPlus_digits {s : List Char} (h : s.all Char.isDigit) : stripPlus s = s := by
  unfold stripPlus
  split
  · rw [List.all_cons, Bool.and_eq_true] at h
    exact absurd h.1 (by decide)
  · rfl

theorem Numeral.parse (n : Numeral) : parseUsize n.digits = some n.value := by
  unfold parseUsize
  rw [stripPlus_digits n.isDigit, if_pos ⟨n.ne_nil, n.isDigit, n.lt⟩]
  rfl

theorem dash_not_mem {s : List Char} (h : s.all Char.isDigit) : '-' ∉ s := by
  intro hmem
  exact absurd (List.all_eq_true.1 h _ hmem) (by decide)

/-- A text that parses has no dash. -/
theorem dash_not_mem_of_parse {s : List Char} {n : Nat} (h : parseUsize s = some n) : '-' ∉ s := by
  unfold parseUsize at h
  split at h
  · rename_i hdigits
    have hmem := dash_not_mem hdigits.2.1
    unfold stripPlus at hmem
    split at hmem
    · rw [List.mem_cons]
      rintro (h | h)
      · cases h
      · exact hmem h
    · exact hmem
  · cases h

theorem splitOn_parts {first last : List Char} (hf : '-' ∉ first) (hl : '-' ∉ last) :
    (first ++ '-' :: last).splitOn '-' = [first, last] := by
  rw [List.splitOn_append_cons_self, List.splitOn_eq_singleton hf, List.splitOn_eq_singleton hl]
  rfl

theorem stripUnit_unit (s : List Char) : stripUnit (rangeUnit ++ s) = some s := by
  rw [stripUnit, if_pos (List.isPrefixOf_iff_prefix.2 (List.prefix_append _ _)), List.drop_left]

theorem isDigit_not_whitespace {c : Char} (h : c.isDigit) : isWhitespace c = false := by
  have hn : 48 ≤ c.val.toNat ∧ c.val.toNat ≤ 57 := by
    simpa [Char.isDigit, UInt32.le_iff_toNat_le] using h
  simp only [isWhitespace, List.contains_cons, List.contains_nil, Bool.or_false,
    Bool.or_eq_false_iff, Bool.and_eq_false_iff, decide_eq_false_iff_not, beq_eq_false_iff_ne]
  omega

/-- A header whose last character is not white space is as it is. -/
theorem trim_of_last {s : List Char} {c : Char} (hc : isWhitespace c = false) :
    trim (rangeUnit ++ (s ++ [c])) = rangeUnit ++ (s ++ [c]) := by
  have hstart : (rangeUnit ++ (s ++ [c])).dropWhile isWhitespace =
      rangeUnit ++ (s ++ [c]) := by
    rw [show rangeUnit = 'b' :: "ytes=".toList by decide, List.cons_append]
    exact List.dropWhile_cons_of_neg (show ¬ isWhitespace 'b' by decide)
  rw [trim, hstart, ← List.append_assoc, List.reverse_append, List.reverse_singleton,
    List.singleton_append, List.dropWhile_cons_of_neg (by rw [hc]; decide), List.reverse_cons,
    List.reverse_reverse]

/-- The parts of the header of a range. -/
theorem stripUnit_text (r : RangeSpec) :
    stripUnit (trim r.text.toList) = some (r.parts.1 ++ '-' :: r.parts.2) := by
  have hlast : ∃ s c, r.parts.1 ++ '-' :: r.parts.2 = s ++ [c] ∧ isWhitespace c = false := by
    have hdigits : ∀ n : Numeral, ∃ s c, n.digits = s ++ [c] ∧ isWhitespace c = false := by
      intro n
      refine ⟨n.digits.dropLast, n.digits.getLast n.ne_nil, ?_, ?_⟩
      · exact (List.dropLast_append_getLast n.ne_nil).symm
      · exact isDigit_not_whitespace (List.all_eq_true.1 n.isDigit _ (List.getLast_mem _))
    cases r with
    | fromTo first last =>
      obtain ⟨s, c, hs, hc⟩ := hdigits last
      exact ⟨first.digits ++ '-' :: s, c, by
        rw [RangeSpec.parts, hs, List.append_assoc]
        rfl, hc⟩
    | onward first => exact ⟨first.digits, '-', rfl, by decide⟩
    | suffix length =>
      obtain ⟨s, c, hs, hc⟩ := hdigits length
      exact ⟨'-' :: s, c, by
        rw [RangeSpec.parts, hs]
        rfl, hc⟩
  obtain ⟨s, c, hs, hc⟩ := hlast
  have htext : r.text.toList = rangeUnit ++ (s ++ [c]) := by
    rw [RangeSpec.text, hs]
    exact String.toList_ofList
  rw [htext, trim_of_last hc, hs]
  exact stripUnit_unit _

/-! ## What the parser gives -/

section
variable {ε : Type} {h : String} {total : Nat}

/-- What follows from the start and the text of the last position. -/
def finish {ε : Type} (start : Nat) (last : List Char) (total : Nat) :
    Result ε (Option (Nat × Nat)) := do
  match ← parseEnd last total with
  | none => return none
  | some e => return checkRange start e total

theorem parseRangeHeader_of_parts {first last : List Char} {start : Nat}
    (hparts : stripUnit (trim h.toList) = some (first ++ '-' :: last))
    (hfirst : parseUsize first = some start) (hlast : '-' ∉ last) :
    (parseRangeHeader h total : Result ε _) = finish start last total := by
  unfold parseRangeHeader
  rw [hparts]
  dsimp only
  rw [splitOn_parts (dash_not_mem_of_parse hfirst) hlast]
  dsimp only
  rw [hfirst]
  rfl

/-- A header that is not of the form `first-last` is no range. -/
theorem parseRangeHeader_cases (h : String) (total : Nat) :
    (parseRangeHeader h total : Result ε _) = .ok none ∨
      ∃ (first last : List Char) (start : Nat),
        stripUnit (trim h.toList) = some (first ++ '-' :: last) ∧ parseUsize first = some start ∧
        (parseRangeHeader h total : Result ε _) = finish start last total := by
  unfold parseRangeHeader
  split
  · exact .inl rfl
  · rename_i s hs
    split
    · rename_i first last hsplit
      split
      · exact .inl rfl
      · rename_i start hstart
        have hs' : s = first ++ '-' :: last := by
          rw [← @List.intercalate_splitOn Char s _ _ '-', hsplit]
          simp
        exact .inr ⟨first, last, start, hs' ▸ hs, hstart, rfl⟩
    · exact .inl rfl

/-- The header ends with the largest `usize`. -/
def Overflows (h : String) : Prop :=
  ∃ (first last : List Char) (start : Nat),
    stripUnit (trim h.toList) = some (first ++ '-' :: last) ∧ parseUsize first = some start ∧
    parseUsize last = some (usizeSize - 1)

theorem parseUsize_lt {s : List Char} {n : Nat} (h : parseUsize s = some n) : n < usizeSize := by
  unfold parseUsize at h
  split at h
  · rename_i hdigits
    rw [← Option.some.inj h]
    exact hdigits.2.2
  · cases h

theorem finish_of_end {start n : Nat} {last : List Char} (hn : parseUsize last = some n)
    (hlt : n + 1 < usizeSize) :
    (finish start last total : Result ε _) = .ok (checkRange start (n + 1) total) := by
  have hne : last ≠ [] := by
    rintro rfl
    cases hn
  rw [finish, parseEnd, if_neg hne, hn]
  dsimp only
  rw [usizeAdd_of_lt hlt]
  rfl

theorem finish_of_max {start : Nat} {last : List Char}
    (hn : parseUsize last = some (usizeSize - 1)) :
    (finish start last total : Result ε _) = .error (.panic .overflow) := by
  have hne : last ≠ [] := by
    rintro rfl
    cases hn
  rw [finish, parseEnd, if_neg hne, hn]
  rfl

/-- The ways a header of the form `first-last` can end. -/
theorem finish_cases {start : Nat} {last : List Char}
    (hmax : parseUsize last ≠ some (usizeSize - 1)) :
    (finish start last total : Result ε _) = .ok none ∨
      ∃ e, (finish start last total : Result ε _) = .ok (checkRange start e total) := by
  by_cases hnil : last = []
  · subst hnil
    exact .inr ⟨total, rfl⟩
  · cases hn : parseUsize last with
    | none =>
      rw [finish, parseEnd, if_neg hnil, hn]
      exact .inl rfl
    | some n =>
      have hlt := parseUsize_lt hn
      have hlt' : n + 1 < usizeSize := by
        rw [hn] at hmax
        have hne : n ≠ usizeSize - 1 := fun heq => hmax (congrArg some heq)
        omega
      exact .inr ⟨n + 1, finish_of_end hn hlt'⟩

theorem checkRange_bounds {start e total s e' : Nat} (h : checkRange start e total = some (s, e')) :
    s < e' ∧ e' ≤ total := by
  unfold checkRange at h
  split at h
  · cases h
  · cases h
    omega

/-! ## Where it does what the RFC says -/

/-- The parser returns, what it returns is a range of the data, and for a range of the RFC it is the
prescribed one. -/
structure Conforms (h : String) (total : Nat) : Prop where
  returns : Returns (parseRangeHeader h total : Result ApiError _)
  bounds : ∀ s e, (parseRangeHeader h total : Result ApiError _) = .ok (some (s, e)) →
    s < e ∧ e ≤ total
  rfc : ∀ r : RangeSpec, h = r.text →
    (parseRangeHeader h total : Result ApiError _) = .ok (r.prescribed total)

/-- A range of the RFC with a start is read as prescribed, unless it overflows. -/
theorem parse_fromTo {first last : Numeral} (hmax : last.value ≠ usizeSize - 1) :
    (parseRangeHeader (RangeSpec.fromTo first last).text total : Result ε _) =
      .ok ((RangeSpec.fromTo first last).prescribed total) := by
  have hlt : last.value + 1 < usizeSize := by
    have := last.lt
    unfold Numeral.value at hmax ⊢
    omega
  rw [parseRangeHeader_of_parts (stripUnit_text (.fromTo first last)) first.parse
    (dash_not_mem last.isDigit)]
  change finish first.value last.digits total = _
  rw [finish_of_end last.parse hlt, RangeSpec.prescribed, checkRange]
  congr 1
  split
  · rename_i h
    rw [if_neg (by omega)]
  · rename_i h
    rw [if_pos (by omega)]

theorem parse_onward (first : Numeral) :
    (parseRangeHeader (RangeSpec.onward first).text total : Result ε _) =
      .ok ((RangeSpec.onward first).prescribed total) := by
  rw [parseRangeHeader_of_parts (stripUnit_text (.onward first)) first.parse List.not_mem_nil]
  change Except.ok (checkRange first.value total total) = _
  rw [checkRange, RangeSpec.prescribed]
  congr 1
  split
  · rename_i h
    rw [if_neg (by omega)]
  · rename_i h
    rw [if_pos (by omega), Nat.min_self]

/-- A suffix range is not read. -/
theorem parse_suffix (length : Numeral) :
    (parseRangeHeader (RangeSpec.suffix length).text total : Result ε _) = .ok none := by
  have hparts : stripUnit (trim (RangeSpec.suffix length).text.toList) =
      some ([] ++ '-' :: length.digits) := stripUnit_text (.suffix length)
  unfold parseRangeHeader
  rw [hparts]
  dsimp only
  rw [splitOn_parts List.not_mem_nil (dash_not_mem length.isDigit)]
  rfl

end

theorem not_overflows_iff {h : String} {first last : List Char} {start : Nat}
    (hparts : stripUnit (trim h.toList) = some (first ++ '-' :: last))
    (hfirst : parseUsize first = some start) (hover : ¬ Overflows h) :
    parseUsize last ≠ some (usizeSize - 1) :=
  fun hlast => hover ⟨first, last, start, hparts, hfirst, hlast⟩

/-- The ways the parser can return. -/
theorem parse_cases {h : String} {total : Nat} (hover : ¬ Overflows h) :
    (parseRangeHeader h total : Result ApiError _) = .ok none ∨
      ∃ start e, (parseRangeHeader h total : Result ApiError _) =
        .ok (checkRange start e total) := by
  rcases @parseRangeHeader_cases ApiError h total with
    hnone | ⟨first, last, start, hparts, hf, hr⟩
  · exact .inl hnone
  · rw [hr]
    rcases @finish_cases ApiError total start last (not_overflows_iff hparts hf hover) with
      hnone | ⟨e, he⟩
    · exact .inl hnone
    · exact .inr ⟨start, e, he⟩

theorem parse_returns_iff {h : String} {total : Nat} :
    Returns (parseRangeHeader h total : Result ApiError _) ↔ ¬ Overflows h := by
  constructor
  · rintro hret ⟨first, last, start, hparts, hfirst, hlast⟩
    rw [parseRangeHeader_of_parts hparts hfirst (dash_not_mem_of_parse hlast),
      finish_of_max hlast] at hret
    exact Returns.not_panic _ hret
  · intro hover
    rcases parse_cases hover with hr | ⟨start, e, hr⟩
    · rw [hr]
      trivial
    · rw [hr]
      trivial

/-- What the parser returns is a range of the data. -/
theorem parse_bounds {h : String} {total s e : Nat}
    (hse : (parseRangeHeader h total : Result ApiError _) = .ok (some (s, e))) :
    s < e ∧ e ≤ total := by
  have hover : ¬ Overflows h := by
    rw [← @parse_returns_iff h total, hse]
    trivial
  rcases parse_cases hover with hr | ⟨start, e', hr⟩
  · cases hr.symm.trans hse
  · exact checkRange_bounds (Except.ok.inj (hr.symm.trans hse))

/-- **Where the parser does what the RFC says**: where the last position is not the largest `usize`
and the header is not that of a suffix range of some bytes. -/
theorem conforms_iff (h : String) (total : Nat) :
    Conforms h total ↔
      ¬ Overflows h ∧ ∀ n : Numeral, h = (RangeSpec.suffix n).text → n.value = 0 ∨ total = 0 := by
  constructor
  · intro hc
    refine ⟨parse_returns_iff.1 hc.returns, fun n hn => ?_⟩
    have hsuffix := hc.rfc (.suffix n) hn
    rw [hn, parse_suffix] at hsuffix
    have hnone := (Except.ok.inj hsuffix).symm
    change (if 0 < n.value ∧ 0 < total then _ else none) = none at hnone
    split at hnone
    · cases hnone
    · omega
  · rintro ⟨hover, hsuffix⟩
    refine ⟨parse_returns_iff.2 hover, fun s e hse => parse_bounds hse, ?_⟩
    rintro r rfl
    cases r with
    | fromTo first last =>
      refine parse_fromTo fun hmax => hover ⟨first.digits, last.digits, first.value,
        stripUnit_text (.fromTo first last), first.parse, ?_⟩
      rw [last.parse, hmax]
    | onward first => exact parse_onward first
    | suffix length =>
      rw [parse_suffix, RangeSpec.prescribed, if_neg]
      have := hsuffix length rfl
      omega

/-- The number 5. -/
def five : Numeral := ⟨['5'], by decide, by decide, by decide⟩

/-- The last five bytes of ten. -/
theorem suffix_not_read : ¬ ∀ (h : String) (total : Nat), Conforms h total := by
  intro h
  have hrfc := (h (RangeSpec.suffix five).text 10).rfc (.suffix five) rfl
  rw [parse_suffix] at hrfc
  exact absurd (Except.ok.inj hrfc) (by decide)

end Api
