import AgenticRag.Python.Utf8

/-! The strict decoder undoes `encodeUtf8`, and accepts nothing else. -/
namespace AgenticRag.Python

section Steps
variable {need value low high : Nat} {bytes : List UInt8} {text : Str}

/-- What a byte inside a sequence does. -/
theorem utf8Feed_pending (b : UInt8) :
    utf8Feed (.pending need value low high) (b :: bytes) =
      if low ≤ b.toNat ∧ b.toNat ≤ high then
        if need = 1 then (utf8Feed .ready bytes).map fun r =>
          (Fin.ofNat _ (value * 64 + (b.toNat - 0x80)) :: r.1, r.2)
        else utf8Feed (.pending (need - 1) (value * 64 + (b.toNat - 0x80)) 0x80 0xBF) bytes
      else none := by
  rw [utf8Feed, utf8Step]
  by_cases hb : low ≤ b.toNat ∧ b.toNat ≤ high
  · rw [if_pos hb, if_pos hb]
    by_cases hneed : need = 1
    · rw [if_pos hneed, if_pos hneed]
      rfl
    · rw [if_neg hneed, if_neg hneed]
      dsimp only
      cases utf8Feed (.pending (need - 1) (value * 64 + (b.toNat - 0x80)) 0x80 0xBF) bytes <;> rfl
  · rw [if_neg hb, if_neg hb]

theorem utf8Feed_lead {b : UInt8} {state : Utf8State} (hb : 0x80 ≤ b.toNat)
    (h : utf8Lead b.toNat = some state) : utf8Feed .ready (b :: bytes) = utf8Feed state bytes := by
  rw [utf8Feed, utf8Step, if_neg (not_lt.mpr hb), h]
  dsimp only [Option.map_some]
  cases utf8Feed state bytes <;> rfl

theorem utf8Feed_ascii {b : UInt8} (hb : b.toNat < 0x80) :
    utf8Feed .ready (b :: bytes) = (utf8Feed .ready bytes).map fun r => (Fin.ofNat _ b.toNat :: r.1, r.2) := by
  rw [utf8Feed, utf8Step, if_pos hb]
  rfl

/-- A continuation byte, as `encodeChar` makes it. -/
theorem toNat_continuation (n : Nat) : (UInt8.ofNat (0x80 + n % 64)).toNat = 0x80 + n % 64 := by
  rw [UInt8.toNat_ofNat']
  omega

/-- The last byte of a sequence completes its character. -/
theorem utf8Feed_last {c : CodePoint} (hvalue : value = c.val / 64) (hlow : low ≤ 0x80 + c.val % 64)
    (hhigh : 0x80 + c.val % 64 ≤ high) :
    utf8Feed (.pending 1 value low high) (UInt8.ofNat (0x80 + c.val % 64) :: bytes) =
      (utf8Feed .ready bytes).map fun r => (c :: r.1, r.2) := by
  have hc : Fin.ofNat 0x110000 (value * 64 + (0x80 + c.val % 64 - 0x80)) = c := by
    rw [Fin.ext_iff, Fin.val_ofNat]
    have hlt := c.isLt
    omega
  rw [utf8Feed_pending, toNat_continuation, if_pos ⟨hlow, hhigh⟩, if_pos rfl, hc]

/-- A byte before the last. -/
theorem utf8Feed_middle {n : Nat} (hneed : 1 < need) (hvalue : value = n / 64) (hlow : low ≤ 0x80 + n % 64)
    (hhigh : 0x80 + n % 64 ≤ high) :
    utf8Feed (.pending need value low high) (UInt8.ofNat (0x80 + n % 64) :: bytes) =
      utf8Feed (.pending (need - 1) n 0x80 0xBF) bytes := by
  have hn : value * 64 + (0x80 + n % 64 - 0x80) = n := by omega
  rw [utf8Feed_pending, toNat_continuation, if_pos ⟨hlow, hhigh⟩, if_neg (by omega), hn]

end Steps

section Characters
variable {bytes : List UInt8} {text : Str}

private theorem toNat_ofNat {n : Nat} (h : n < 256) : (UInt8.ofNat n).toNat = n := by
  rw [UInt8.toNat_ofNat']
  omega

/-- The first byte of three: its range leaves out overlong forms and surrogates. -/
private theorem utf8Lead_three {n : Nat} (hlow : 0x800 ≤ n) (hhigh : n < 0x10000)
    (hscalar : ¬(0xD800 ≤ n ∧ n ≤ 0xDFFF)) : ∃ low high,
      utf8Lead (0xE0 + n / 4096) = some (.pending 2 (n / 64 / 64) low high) ∧
        low ≤ 0x80 + n / 64 % 64 ∧ 0x80 + n / 64 % 64 ≤ high := by
  rw [utf8Lead, if_neg (by omega), Nat.div_div_eq_div_mul]
  by_cases hzero : n / 4096 = 0
  · rw [hzero, if_pos rfl]
    exact ⟨_, _, rfl, by omega, by omega⟩
  rw [if_neg (by omega)]
  by_cases hsurrogate : n / 4096 = 0xD
  · rw [hsurrogate, if_pos rfl]
    exact ⟨_, _, rfl, by omega, by omega⟩
  rw [if_neg (by omega), if_pos (by omega), Nat.add_sub_cancel_left]
  exact ⟨_, _, rfl, by omega, by omega⟩

/-- The first byte of four. -/
private theorem utf8Lead_four {n : Nat} (hlow : 0x10000 ≤ n) (hhigh : n < 0x110000) : ∃ low high,
      utf8Lead (0xF0 + n / 262144) = some (.pending 3 (n / 4096 / 64) low high) ∧
        low ≤ 0x80 + n / 4096 % 64 ∧ 0x80 + n / 4096 % 64 ≤ high := by
  rw [utf8Lead, if_neg (by omega), if_neg (by omega), if_neg (by omega), if_neg (by omega),
    Nat.div_div_eq_div_mul]
  by_cases hzero : n / 262144 = 0
  · rw [hzero, if_pos rfl]
    exact ⟨_, _, rfl, by omega, by omega⟩
  rw [if_neg (by omega)]
  by_cases hlast : n / 262144 = 4
  · rw [hlast, if_neg (by omega), if_pos rfl]
    exact ⟨_, _, rfl, by omega, by omega⟩
  rw [if_pos (by omega), Nat.add_sub_cancel_left]
  exact ⟨_, _, rfl, by omega, by omega⟩

/-- The decoder reads back each scalar value. -/
theorem utf8Feed_encodeChar {c : CodePoint} (hc : isSurrogate c = false) :
    utf8Feed .ready (encodeChar c ++ bytes) = (utf8Feed .ready bytes).map fun r => (c :: r.1, r.2) := by
  have hlt := c.isLt
  have hscalar : ¬(0xD800 ≤ c.val ∧ c.val ≤ 0xDFFF) := by simpa [isSurrogate] using hc
  have hof : Fin.ofNat 0x110000 c.val = c := by rw [Fin.ext_iff, Fin.val_ofNat, Nat.mod_eq_of_lt hlt]
  unfold encodeChar
  dsimp only
  split
  · rename_i h
    have hb : (UInt8.ofNat c.val).toNat = c.val := toNat_ofNat (by omega)
    rw [List.singleton_append, utf8Feed_ascii (by omega), hb, hof]
  split
  · have hb : (UInt8.ofNat (0xC0 + c.val / 64)).toNat = 0xC0 + c.val / 64 := toNat_ofNat (by omega)
    have hlead : utf8Lead (0xC0 + c.val / 64) = some (.pending 1 (c.val / 64) 0x80 0xBF) := by
      rw [utf8Lead, if_pos (by omega), Nat.add_sub_cancel_left]
    rw [List.cons_append, List.singleton_append, utf8Feed_lead (by omega) (hb ▸ hlead),
      utf8Feed_last rfl (by omega) (by omega)]
  split
  · have hb : (UInt8.ofNat (0xE0 + c.val / 4096)).toNat = 0xE0 + c.val / 4096 := toNat_ofNat (by omega)
    obtain ⟨low, high, hlead, hlow, hhigh⟩ := utf8Lead_three (by omega) (by omega) hscalar
    rw [List.cons_append, List.cons_append, List.singleton_append, utf8Feed_lead (by omega) (hb ▸ hlead),
      utf8Feed_middle (by omega) rfl hlow hhigh, utf8Feed_last rfl (by omega) (by omega)]
  · have hb : (UInt8.ofNat (0xF0 + c.val / 262144)).toNat = 0xF0 + c.val / 262144 := toNat_ofNat (by omega)
    obtain ⟨low, high, hlead, hlow, hhigh⟩ := utf8Lead_four (by omega) hlt
    rw [List.cons_append, List.cons_append, List.cons_append, List.singleton_append,
      utf8Feed_lead (by omega) (hb ▸ hlead), utf8Feed_middle (by omega) rfl hlow hhigh,
      utf8Feed_middle (by omega) (by omega) (by omega) (by omega), utf8Feed_last rfl (by omega) (by omega)]

/-- A byte is needed inside a sequence, and it completes the character when it is the last. -/
private theorem pending_inv {need value low high : Nat}
    (h : utf8Feed (.pending need value low high) bytes = some (text, .ready)) :
    ∃ b rest, bytes = b :: rest ∧ low ≤ b.toNat ∧ b.toNat ≤ high ∧
      (need = 1 → ∃ text', text = Fin.ofNat _ (value * 64 + (b.toNat - 0x80)) :: text' ∧
        utf8Feed .ready rest = some (text', .ready)) ∧
      (need ≠ 1 → utf8Feed (.pending (need - 1) (value * 64 + (b.toNat - 0x80)) 0x80 0xBF) rest =
        some (text, .ready)) := by
  cases bytes with
  | nil => cases h
  | cons b rest =>
    rw [utf8Feed_pending] at h
    by_cases hb : low ≤ b.toNat ∧ b.toNat ≤ high
    swap
    · rw [if_neg hb] at h
      cases h
    rw [if_pos hb] at h
    refine ⟨b, rest, rfl, hb.1, hb.2, fun hneed => ?_, fun hneed => ?_⟩
    · rw [if_pos hneed, Option.map_eq_some_iff] at h
      obtain ⟨⟨text', state⟩, hrest, heq⟩ := h
      obtain ⟨rfl, rfl⟩ := Prod.mk.inj heq
      exact ⟨text', rfl, hrest⟩
    · rwa [if_neg hneed] at h

/-- The first byte of a longer sequence: how many bytes follow, and where the next one may lie. -/
private theorem utf8Lead_cases {b : Nat} {state : Utf8State} (h : utf8Lead b = some state) :
    (0xC2 ≤ b ∧ b ≤ 0xDF ∧ state = .pending 1 (b - 0xC0) 0x80 0xBF) ∨
    (∃ low high, 0xE0 ≤ b ∧ b ≤ 0xEF ∧ state = .pending 2 (b - 0xE0) low high ∧ 0x80 ≤ low ∧ high ≤ 0xBF ∧
      (b = 0xE0 → 0xA0 ≤ low) ∧ (b = 0xED → high ≤ 0x9F)) ∨
    (∃ low high, 0xF0 ≤ b ∧ b ≤ 0xF4 ∧ state = .pending 3 (b - 0xF0) low high ∧ 0x80 ≤ low ∧ high ≤ 0xBF ∧
      (b = 0xF0 → 0x90 ≤ low) ∧ (b = 0xF4 → high ≤ 0x8F)) := by
  rw [utf8Lead] at h
  split at h
  · exact .inl ⟨by omega, by omega, (Option.some.inj h).symm⟩
  split at h
  · subst b
    exact .inr (.inl ⟨0xA0, 0xBF, by omega, by omega, (Option.some.inj h).symm, by omega, by omega, by omega,
      by omega⟩)
  split at h
  · subst b
    exact .inr (.inl ⟨0x80, 0x9F, by omega, by omega, (Option.some.inj h).symm, by omega, by omega, by omega,
      by omega⟩)
  split at h
  · exact .inr (.inl ⟨0x80, 0xBF, by omega, by omega, (Option.some.inj h).symm, by omega, by omega, by omega,
      by omega⟩)
  split at h
  · subst b
    exact .inr (.inr ⟨0x90, 0xBF, by omega, by omega, (Option.some.inj h).symm, by omega, by omega, by omega,
      by omega⟩)
  split at h
  · exact .inr (.inr ⟨0x80, 0xBF, by omega, by omega, (Option.some.inj h).symm, by omega, by omega, by omega,
      by omega⟩)
  split at h
  · subst b
    exact .inr (.inr ⟨0x80, 0x8F, by omega, by omega, (Option.some.inj h).symm, by omega, by omega, by omega,
      by omega⟩)
  · cases h

private theorem ofNat_eq {b : UInt8} {n : Nat} (h : n = b.toNat) : UInt8.ofNat n = b := by
  rw [h, UInt8.ofNat_toNat]

private theorem encodeChar_two {c : CodePoint} {b₀ b₁ : UInt8} (h₀ : 0xC2 ≤ b₀.toNat ∧ b₀.toNat ≤ 0xDF)
    (h₁ : 0x80 ≤ b₁.toNat ∧ b₁.toNat ≤ 0xBF)
    (hc : c.val = (b₀.toNat - 0xC0) * 64 + (b₁.toNat - 0x80)) : encodeChar c = [b₀, b₁] := by
  unfold encodeChar
  dsimp only
  rw [if_neg (by omega), if_pos (by omega), ofNat_eq (b := b₀) (by omega), ofNat_eq (b := b₁) (by omega)]

private theorem encodeChar_three {c : CodePoint} {b₀ b₁ b₂ : UInt8} (h₀ : 0xE0 ≤ b₀.toNat ∧ b₀.toNat ≤ 0xEF)
    (h₁ : 0x80 ≤ b₁.toNat ∧ b₁.toNat ≤ 0xBF) (h₂ : 0x80 ≤ b₂.toNat ∧ b₂.toNat ≤ 0xBF)
    (hoverlong : b₀.toNat = 0xE0 → 0xA0 ≤ b₁.toNat)
    (hc : c.val = ((b₀.toNat - 0xE0) * 64 + (b₁.toNat - 0x80)) * 64 + (b₂.toNat - 0x80)) :
    encodeChar c = [b₀, b₁, b₂] := by
  unfold encodeChar
  dsimp only
  rw [if_neg (by omega), if_neg (by omega), if_pos (by omega), ofNat_eq (b := b₀) (by omega),
    ofNat_eq (b := b₁) (by omega), ofNat_eq (b := b₂) (by omega)]

private theorem encodeChar_four {c : CodePoint} {b₀ b₁ b₂ b₃ : UInt8}
    (h₀ : 0xF0 ≤ b₀.toNat ∧ b₀.toNat ≤ 0xF4)
    (h₁ : 0x80 ≤ b₁.toNat ∧ b₁.toNat ≤ 0xBF) (h₂ : 0x80 ≤ b₂.toNat ∧ b₂.toNat ≤ 0xBF)
    (h₃ : 0x80 ≤ b₃.toNat ∧ b₃.toNat ≤ 0xBF) (hoverlong : b₀.toNat = 0xF0 → 0x90 ≤ b₁.toNat)
    (hc : c.val = (((b₀.toNat - 0xF0) * 64 + (b₁.toNat - 0x80)) * 64 + (b₂.toNat - 0x80)) * 64 +
      (b₃.toNat - 0x80)) : encodeChar c = [b₀, b₁, b₂, b₃] := by
  unfold encodeChar
  dsimp only
  rw [if_neg (by omega), if_neg (by omega), if_neg (by omega), ofNat_eq (b := b₀) (by omega),
    ofNat_eq (b := b₁) (by omega), ofNat_eq (b := b₂) (by omega), ofNat_eq (b := b₃) (by omega)]

private theorem scalar_of_val {c : CodePoint} (h : c.val < 0xD800 ∨ 0xDFFF < c.val) : isSurrogate c = false := by
  simp only [isSurrogate, Bool.and_eq_false_iff, decide_eq_false_iff_not]
  omega

private theorem val_ofNat {n : Nat} (h : n < 0x110000) : (Fin.ofNat 0x110000 n).val = n := by
  rw [Fin.val_ofNat, Nat.mod_eq_of_lt h]

/-- What is decoded begins with the bytes of its first character. -/
theorem utf8Feed_inv {b : UInt8} (h : utf8Feed .ready (b :: bytes) = some (text, .ready)) :
    ∃ c rest text', isSurrogate c = false ∧ b :: bytes = encodeChar c ++ rest ∧ text = c :: text' ∧
      utf8Feed .ready rest = some (text', .ready) := by
  by_cases hb : b.toNat < 0x80
  · rw [utf8Feed_ascii hb, Option.map_eq_some_iff] at h
    obtain ⟨⟨text', state⟩, hrest, heq⟩ := h
    obtain ⟨rfl, rfl⟩ := Prod.mk.inj heq
    have hval : (Fin.ofNat 0x110000 b.toNat).val = b.toNat := val_ofNat (by omega)
    refine ⟨_, bytes, text', scalar_of_val (by omega), ?_, rfl, hrest⟩
    unfold encodeChar
    dsimp only
    rw [if_pos (by omega), hval, UInt8.ofNat_toNat]
    rfl
  cases hlead : utf8Lead b.toNat with
  | none =>
    rw [utf8Feed, utf8Step, if_neg hb, hlead] at h
    cases h
  | some state =>
    rw [utf8Feed_lead (not_lt.mp hb) hlead] at h
    rcases utf8Lead_cases hlead with ⟨hlow, hhigh, rfl⟩ | ⟨low, high, hlow, hhigh, rfl, hlo, hhi, hover, hsur⟩ |
      ⟨low, high, hlow, hhigh, rfl, hlo, hhi, hover, hmax⟩
    · obtain ⟨b₁, rest, rfl, h₁, h₁', hlast, _⟩ := pending_inv h
      obtain ⟨text', rfl, hrest⟩ := hlast rfl
      have hval := val_ofNat (n := (b.toNat - 0xC0) * 64 + (b₁.toNat - 0x80)) (by omega)
      refine ⟨_, rest, text', scalar_of_val (by omega), ?_, rfl, hrest⟩
      rw [encodeChar_two ⟨hlow, hhigh⟩ ⟨h₁, h₁'⟩ hval]
      rfl
    · obtain ⟨b₁, rest, rfl, h₁, h₁', _, hnext⟩ := pending_inv h
      obtain ⟨b₂, rest, rfl, h₂, h₂', hlast, _⟩ := pending_inv (hnext (by omega))
      obtain ⟨text', rfl, hrest⟩ := hlast rfl
      have hval := val_ofNat
        (n := ((b.toNat - 0xE0) * 64 + (b₁.toNat - 0x80)) * 64 + (b₂.toNat - 0x80)) (by omega)
      refine ⟨_, rest, text', scalar_of_val (by omega), ?_, rfl, hrest⟩
      rw [encodeChar_three ⟨hlow, hhigh⟩ ⟨by omega, by omega⟩ ⟨h₂, h₂'⟩ (by omega) hval]
      rfl
    · obtain ⟨b₁, rest, rfl, h₁, h₁', _, hnext⟩ := pending_inv h
      obtain ⟨b₂, rest, rfl, h₂, h₂', _, hnext⟩ := pending_inv (hnext (by omega))
      obtain ⟨b₃, rest, rfl, h₃, h₃', hlast, _⟩ := pending_inv (hnext (by omega))
      obtain ⟨text', rfl, hrest⟩ := hlast rfl
      have hval := val_ofNat (n := (((b.toNat - 0xF0) * 64 + (b₁.toNat - 0x80)) * 64 +
        (b₂.toNat - 0x80)) * 64 + (b₃.toNat - 0x80)) (by omega)
      refine ⟨_, rest, text', scalar_of_val (by omega), ?_, rfl, hrest⟩
      rw [encodeChar_four ⟨hlow, hhigh⟩ ⟨by omega, by omega⟩ ⟨h₂, h₂'⟩ ⟨h₃, h₃'⟩ (by omega) hval]
      rfl

end Characters

theorem encodeUtf8_cons {c : CodePoint} {text : Str} {bytes : List UInt8} :
    encodeUtf8 (c :: text) = some bytes ↔ isSurrogate c = false ∧
      ∃ rest, encodeUtf8 text = some rest ∧ bytes = encodeChar c ++ rest := by
  unfold encodeUtf8
  rw [List.any_cons, List.flatMap_cons]
  cases isSurrogate c <;> cases text.any isSurrogate <;> simp [eq_comm]

/-- The decoder accepts exactly what the encoder makes. -/
theorem utf8Feed_ready {bytes : List UInt8} {text : Str} :
    utf8Feed .ready bytes = some (text, .ready) ↔ encodeUtf8 text = some bytes := by
  constructor
  · intro h
    induction text generalizing bytes with
    | nil =>
      cases bytes with
      | nil => rfl
      | cons b bytes =>
        obtain ⟨c, rest, text', _, _, htext, _⟩ := utf8Feed_inv h
        cases htext
    | cons c text ih =>
      cases bytes with
      | nil => cases h
      | cons b bytes =>
        obtain ⟨c', rest, text', hscalar, hbytes, htext, hrest⟩ := utf8Feed_inv h
        obtain ⟨rfl, rfl⟩ := List.cons.inj htext
        exact encodeUtf8_cons.mpr ⟨hscalar, rest, ih hrest, hbytes⟩
  · intro h
    induction text generalizing bytes with
    | nil =>
      obtain rfl := Option.some.inj h
      rfl
    | cons c text ih =>
      obtain ⟨hscalar, rest, hrest, rfl⟩ := encodeUtf8_cons.mp h
      rw [utf8Feed_encodeChar hscalar, ih hrest]
      rfl

theorem decodeUtf8_eq_some {bytes : List UInt8} {text : Str} :
    decodeUtf8 bytes = some text ↔ encodeUtf8 text = some bytes := by
  rw [← utf8Feed_ready, decodeUtf8]
  split
  · rename_i decoded hfeed
    rw [hfeed]
    simp
  · rename_i hnone
    constructor
    · rintro ⟨⟩
    · intro h
      exact absurd h (hnone text)

end AgenticRag.Python
