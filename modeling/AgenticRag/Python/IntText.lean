import AgenticRag.Python.JsonLoads
import AgenticRag.Python.Uuid
import AgenticRag.Lib.Trims

/-! The decimal text of an integer, which `int(text, 10)` reads back, and the canonical
spelling of a UUID, which its constructor reads back. -/
namespace AgenticRag.Python
open Lib

def isDecimal (c : CodePoint) : Prop := 0x30 ≤ c.val ∧ c.val ≤ 0x39

theorem digitValue_decimal {c : CodePoint} (h : isDecimal c) : digitValue c = some (c.val - 0x30) :=
  if_pos h

/-- Digits without underscores are read from the left. -/
theorem digitsValue_foldl {base : Nat} {lead : Bool} {acc : Nat} {s : Str}
    (hs : ∀ c ∈ s, c ≠ underscore ∧ ∃ d, digitValue c = some d ∧ d < base)
    (hlead : s = [] → lead = false) :
    digitsValue base lead acc s =
      some (s.foldl (fun acc c => acc * base + (digitValue c).getD 0) acc) := by
  induction s generalizing lead acc with
  | nil =>
    rw [hlead rfl]
    rfl
  | cons c s ih =>
    obtain ⟨⟨hunder, d, hd, hlt⟩, hs⟩ := List.forall_mem_cons.mp hs
    rw [digitsValue, if_neg hunder, List.foldl_cons, hd]
    simp only [hlt, if_true]
    exact ih hs fun _ => rfl

theorem digitsValue_decimal {lead : Bool} {acc : Nat} {s : Str} (hs : ∀ c ∈ s, isDecimal c)
    (hlead : s = [] → lead = false) :
    digitsValue 10 lead acc s = some (s.foldl (fun acc c => acc * 10 + (c.val - 0x30)) acc) := by
  rw [digitsValue_foldl ?_ hlead]
  · congr 1
    refine List.foldl_ext _ _ _ fun n c hc => ?_
    rw [digitValue_decimal (hs c hc), Option.getD_some]
  · intro c hc
    have hdecimal := hs c hc
    refine ⟨?_, _, digitValue_decimal hdecimal, ?_⟩
    · rintro rfl
      exact absurd hdecimal.2 (by decide)
    · have := hdecimal.2
      omega

theorem foldl_decimal (s : Str) :
    s.foldl (fun acc c => acc * 10 + (c.val - 0x30)) 0 = natOf s := by
  rw [natOf, Nat.ofDigits_eq_foldr, List.foldr_map, List.foldr_reverse]
  congr 1
  funext acc c
  simp only [Nat.cast_id]
  omega

theorem stripWhile_of_forall {p : CodePoint → Bool} {s : Str} (h : ∀ c ∈ s, p c = false) :
    stripWhile p s = s := by
  rw [stripWhile, lstripWhile, rstripWhile,
    dropWhile_eq_self fun c hc => h c (List.mem_of_mem_head? hc),
    rdropWhile_eq_self fun c hc => h c (List.mem_of_mem_getLast? hc)]

/-- ASCII without whitespace is read as it is. -/
theorem intLiteral_of_ascii {s : Str} (h : ∀ c ∈ s, c.val < 0x7F ∧ isIntSpace c = false) :
    intLiteral s = signOf s := by
  have hmap : s.map toIntChar = s := by
    conv_rhs => rw [← List.map_id s]
    exact List.map_congr_left fun c hc => if_pos (h c hc).1
  rw [intLiteral, hmap, stripWhile_of_forall fun c hc => (h c hc).2]

theorem isDecimal_intChar {c : CodePoint} (h : isDecimal c) : c.val < 0x7F ∧ isIntSpace c = false := by
  obtain ⟨hlow, hhigh⟩ := h
  refine ⟨by omega, ?_⟩
  simp only [isIntSpace, Bool.or_eq_false_iff, Bool.and_eq_false_iff, decide_eq_false_iff_not,
    beq_eq_false_iff_ne]
  omega

theorem natStr_ne_nil (n : Nat) : natStr n ≠ [] := by
  unfold natStr
  split
  · exact List.cons_ne_nil _ _
  · rename_i h
    simpa [Nat.digits_eq_nil_iff_eq_zero] using h

/-- `str(n)`. -/
def intStr (n : Int) : Str := if n < 0 then ord '-' :: natStr n.natAbs else natStr n.natAbs

theorem intStr_mem {n : Int} {c : CodePoint} (h : c ∈ intStr n) : c = ord '-' ∨ isDecimal c := by
  unfold intStr at h
  split at h
  · exact (List.mem_cons.mp h).imp_right natStr_digit
  · exact .inr (natStr_digit h)

/-- The text of an integer is read back. -/
theorem intBase10_intStr (n : Int) : intBase10 (intStr n) = some n := by
  have hliteral : intLiteral (intStr n) = signOf (intStr n) := by
    refine intLiteral_of_ascii fun c hc => ?_
    rcases intStr_mem hc with rfl | hdecimal
    · decide
    · exact isDecimal_intChar hdecimal
  have hdigits : digitsValue 10 true 0 (natStr n.natAbs) = some n.natAbs := by
    rw [digitsValue_decimal (fun c => natStr_digit) fun h => absurd h (natStr_ne_nil _),
      foldl_decimal, natOf_natStr]
  rw [intBase10, hliteral, intStr]
  by_cases hneg : n < 0
  · rw [if_pos hneg, signOf, if_pos rfl]
    simp only [hdigits]
    change some (-1 * (n.natAbs : Int)) = some n
    rw [Option.some_inj]
    omega
  · rw [if_neg hneg]
    cases hs : natStr n.natAbs with
    | nil => exact absurd hs (natStr_ne_nil _)
    | cons c rest =>
      have hc : isDecimal c := natStr_digit (hs ▸ List.mem_cons_self)
      have hminus : c ≠ ord '-' := by
        rintro rfl
        exact absurd hc.1 (by decide)
      have hplus : c ≠ ord '+' := by
        rintro rfl
        exact absurd hc.1 (by decide)
      rw [signOf, if_neg hminus, if_neg hplus]
      simp only [← hs, hdigits]
      change some (1 * (n.natAbs : Int)) = some n
      rw [Option.some_inj]
      omega

/-- The number that stands for an integer in JSON. -/
def Numeral.ofInt (n : Int) : Numeral where
  text := intStr n
  ascii c hc := by
    rcases intStr_mem hc with rfl | hdecimal
    · decide
    · exact Nat.lt_of_le_of_lt hdecimal.2 (by decide)

theorem Numeral.ofInt_isIntegral (n : Int) : (Numeral.ofInt n).isIntegral = true := by
  rw [isIntegral, List.all_eq_true]
  intro c hc
  rw [Bool.or_eq_true]
  rcases intStr_mem hc with rfl | hdecimal
  · exact .inr rfl
  · refine .inl ?_
    rw [JsonScanner.isDigit, Bool.and_eq_true, decide_eq_true_eq, decide_eq_true_eq]
    exact hdecimal

section Canonical

theorem isLowerHex_ascii {c : CodePoint} (h : isLowerHex c = true) :
    c.val < 0x7F ∧ isIntSpace c = false := by
  simp only [isLowerHex, Bool.or_eq_true, Bool.and_eq_true, decide_eq_true_eq] at h
  refine ⟨by omega, ?_⟩
  simp only [isIntSpace, Bool.or_eq_false_iff, Bool.and_eq_false_iff, decide_eq_false_iff_not,
    beq_eq_false_iff_ne]
  omega

/-- A character that no hexadecimal digit is. -/
private theorem not_mem_of_hex {c : CodePoint} (hc : isLowerHex c = false) {s : Str}
    (hs : ∀ d ∈ s, isLowerHex d = true) : c ∉ s := by
  intro hmem
  rw [hs c hmem] at hc
  cases hc

theorem digitValue_hexDigit (d : Fin 16) : digitValue (hexDigit d) = some d.val := by
  revert d
  decide

theorem isLowerHex_digit {c : CodePoint} (h : isLowerHex c = true) :
    c ≠ underscore ∧ ∃ d, digitValue c = some d ∧ d < 16 := by
  simp only [isLowerHex, Bool.or_eq_true, Bool.and_eq_true, decide_eq_true_eq] at h
  refine ⟨?_, ?_⟩
  · rintro rfl
    revert h
    decide
  · rw [digitValue]
    rcases h with h | h
    · exact ⟨_, if_pos h, by omega⟩
    · rw [if_neg (by omega), if_pos (by omega)]
      exact ⟨_, rfl, by omega⟩

/-- The digits of a number add up to it. -/
theorem foldl_hexFixed {width n : Nat} (h : n < 16 ^ width) :
    (hexFixed width n).foldl (fun acc c => acc * 16 + (digitValue c).getD 0) 0 = n := by
  induction width generalizing n with
  | zero =>
    rw [Nat.pow_zero] at h
    rw [hexFixed, List.foldl_nil]
    omega
  | succ width ih =>
    have hdiv : n / 16 < 16 ^ width := by
      rw [Nat.div_lt_iff_lt_mul (by decide), ← Nat.pow_succ]
      exact h
    rw [hexFixed, List.foldl_append, ih hdiv, List.foldl_cons, List.foldl_nil, digitValue_hexDigit,
      Option.getD_some]
    exact Nat.div_add_mod' n 16

/-- `int(text, 16)` of the digits of a number. -/
theorem intBase16_hexFixed {width n : Nat} (h : n < 16 ^ (width + 1)) :
    intBase16 (hexFixed (width + 1) n) = some (n : Int) := by
  have hhex : ∀ c ∈ hexFixed (width + 1) n, isLowerHex c = true := fun c => hexFixed_isLowerHex
  have hdigits : digitsValue 16 true 0 (hexFixed (width + 1) n) = some n := by
    rw [digitsValue_foldl (fun c hc => isLowerHex_digit (hhex c hc)), foldl_hexFixed h]
    intro hnil
    have hlen := hexFixed_length (width + 1) n
    rw [hnil] at hlen
    cases hlen
  rw [intBase16, intLiteral_of_ascii fun c hc => isLowerHex_ascii (hhex c hc)]
  cases hs : hexFixed (width + 1) n with
  | nil =>
    rw [hs] at hdigits
    cases hdigits
  | cons a rest =>
    rw [hs] at hhex hdigits
    have hminus : a ≠ ord '-' := by
      rintro rfl
      exact not_mem_of_hex (by decide) hhex List.mem_cons_self
    have hplus : a ≠ ord '+' := by
      rintro rfl
      exact not_mem_of_hex (by decide) hhex List.mem_cons_self
    have hkept : dropHexPrefix (a :: rest) = a :: rest := by
      cases rest with
      | nil => rfl
      | cons b rest =>
        refine if_neg ?_
        rintro ⟨_, rfl | rfl⟩
        · exact not_mem_of_hex (by decide) hhex (List.mem_cons_of_mem _ List.mem_cons_self)
        · exact not_mem_of_hex (by decide) hhex (List.mem_cons_of_mem _ List.mem_cons_self)
    rw [signOf, if_neg hminus, if_neg hplus]
    simp only [hkept, hdigits]
    change some (1 * (n : Int)) = some (n : Int)
    rw [one_mul]

/-- Nothing is removed from a text that lacks the first character of what is sought. -/
private theorem removeAll_of_not_mem {c : CodePoint} {sub : Str} (n : Nat) {s : Str} (h : c ∉ s) :
    removeAll (c :: sub) n s = s := by
  induction s generalizing n with
  | nil => cases n <;> rfl
  | cons d s ih =>
    obtain ⟨hd, hs⟩ := not_or.mp fun hor => h (List.mem_cons.mpr hor)
    cases n with
    | zero => rfl
    | succ n =>
      have hno : (c :: sub).isPrefixOf (d :: s) = false := by
        rw [List.isPrefixOf, beq_false_of_ne hd, Bool.false_and]
      rw [removeAll, hno, ih n hs]
      rfl

/-- A text in five groups. -/
private theorem groups_append (s : Str) :
    s.take 8 ++ ((s.drop 8).take 4 ++ ((s.drop 12).take 4 ++ ((s.drop 16).take 4 ++ s.drop 20))) = s := by
  have d (m n : Nat) : (s.drop m).take n ++ s.drop (m + n) = s.drop m := by
    rw [← List.drop_drop, List.take_append_drop]
  rw [d 16 4, d 12 4, d 8 4, List.take_append_drop]

/-- Without its hyphens a spelling is its 32 digits. -/
theorem UUID.str_digits (u : UUID) :
    (UUID.str u).filter (fun c => c != hyphen) = hexFixed 32 u.val := by
  have hself : ∀ s : Str, (∀ c ∈ s, c ∈ hexFixed 32 u.val) → s.filter (fun c => c != hyphen) = s := by
    intro s hs
    refine List.filter_eq_self.mpr fun c hc => ?_
    rw [bne_iff_ne]
    rintro rfl
    exact absurd (hexFixed_isLowerHex (hs _ hc)) (by decide)
  have hdrop : ∀ n, ∀ c ∈ (hexFixed 32 u.val).drop n, c ∈ hexFixed 32 u.val :=
    fun n c hc => List.mem_of_mem_drop hc
  have hgroup : ∀ n m, ∀ c ∈ ((hexFixed 32 u.val).drop n).take m, c ∈ hexFixed 32 u.val :=
    fun n m c hc => hdrop n c (List.mem_of_mem_take hc)
  simp only [UUID.str, List.filter_append, List.filter_cons, bne_self_eq_false, Bool.false_eq_true,
    if_false]
  rw [hself _ fun c hc => List.mem_of_mem_take hc, hself _ (hgroup 8 4), hself _ (hgroup 12 4),
    hself _ (hgroup 16 4), hself _ (hdrop 20), groups_append]

theorem UUID.str_char {u : UUID} {c : CodePoint} (h : c ∈ UUID.str u) :
    isLowerHex c = true ∨ c = hyphen := by
  by_cases hc : c = hyphen
  · exact .inr hc
  · left
    have hmem : c ∈ (UUID.str u).filter (fun c => c != hyphen) :=
      List.mem_filter.mpr ⟨h, bne_iff_ne.mpr hc⟩
    rw [UUID.str_digits] at hmem
    exact hexFixed_isLowerHex hmem

/-- The constructor reads the canonical spelling back. -/
theorem UUID.ofText_str (u : UUID) : UUID.ofText (UUID.str u) = some u := by
  have hletter : ord 'u' ∉ UUID.str u := by
    intro h
    rcases UUID.str_char h with h | h
    · exact absurd h (by decide)
    · exact absurd h (by decide)
  have hbrace : ∀ c ∈ UUID.str u, (c == ord '{' || c == ord '}') = false := by
    intro c hc
    rw [Bool.or_eq_false_iff, beq_eq_false_iff_ne, beq_eq_false_iff_ne]
    refine ⟨?_, ?_⟩
    · rintro rfl
      exact absurd (UUID.str_char hc) (by decide)
    · rintro rfl
      exact absurd (UUID.str_char hc) (by decide)
  have hlt : u.val < 16 ^ (31 + 1) := u.isLt.trans_eq (by norm_num)
  have hurn : ∀ n, removeAll (Python.str "urn:") n (UUID.str u) = UUID.str u :=
    fun n => removeAll_of_not_mem n hletter
  have huuid : ∀ n, removeAll (Python.str "uuid:") n (UUID.str u) = UUID.str u :=
    fun n => removeAll_of_not_mem n hletter
  simp only [UUID.ofText, hurn, huuid]
  rw [stripWhile_of_forall hbrace, UUID.str_digits, hexFixed_length, if_neg (by decide),
    intBase16_hexFixed hlt]
  exact dif_pos u.isLt

end Canonical
end AgenticRag.Python
