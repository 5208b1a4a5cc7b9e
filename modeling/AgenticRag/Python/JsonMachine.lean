import AgenticRag.Python.JsonParsing

/-! The stack machine reads the tokens of a value and makes the value of them. Both parsers take
the same moves and differ in the completed values that they admit. -/
namespace AgenticRag.Python
open Lib JsonParser

/-- Every value within a value is admitted. -/
inductive Admitted (admits : Json → Prop) : Json → Prop where
  | null (h : admits .null) : Admitted admits .null
  | bool {b : Bool} (h : admits (.bool b)) : Admitted admits (.bool b)
  | number {lexeme : Numeral} (h : admits (.number lexeme)) : Admitted admits (.number lexeme)
  | string {s : Str} (h : admits (.string s)) : Admitted admits (.string s)
  | array {items : List Json} (h : admits (.array items)) (hitems : ∀ item ∈ items, Admitted admits item) :
      Admitted admits (.array items)
  | object {members : List (Str × Json)} (h : admits (.object members))
      (hmembers : ∀ member ∈ members, Admitted admits member.2) : Admitted admits (.object members)

section Moves
variable {admits : Json → Prop}

def StartsValue (expect : Expect) : Prop := expect = .value ∨ expect = .firstItem

/-- What one token does to the stack. -/
inductive JsonMove (admits : Json → Prop) : State → JsonToken → State → Prop where
  | scalar {stack : List Frame} {expect : Expect} {token : JsonToken} {value : Json} {next : State}
      (hexpect : StartsValue expect) (htokens : value.tokens = [token]) (hadmits : admits value)
      (h : complete value stack = some next) : JsonMove admits (.running stack expect) token next
  | openArray {stack : List Frame} {expect : Expect} (hexpect : StartsValue expect) :
      JsonMove admits (.running stack expect) .openBracket (.running (.array [] :: stack) .firstItem)
  | openObject {stack : List Frame} {expect : Expect} (hexpect : StartsValue expect) :
      JsonMove admits (.running stack expect) .openBrace (.running (.object [] :: stack) .firstKey)
  | emptyArray {stack : List Frame} {next : State} (hadmits : admits (.array []))
      (h : complete (.array []) stack = some next) :
      JsonMove admits (.running (.array [] :: stack) .firstItem) .closeBracket next
  | emptyObject {stack : List Frame} {next : State} (hadmits : admits (.object []))
      (h : complete (.object []) stack = some next) :
      JsonMove admits (.running (.object [] :: stack) .firstKey) .closeBrace next
  | key {stack : List Frame} {expect : Expect} {members : List (Str × Json)} (key : Str)
      (hexpect : expect = .firstKey ∨ expect = .key) :
      JsonMove admits (.running (.object members :: stack) expect) (.string key)
        (.running (.member members key :: stack) .colon)
  | colon {stack : List Frame} : JsonMove admits (.running stack .colon) .colon (.running stack .value)
  | nextItem {stack : List Frame} {items : List Json} :
      JsonMove admits (.running (.array items :: stack) .separator) .comma (.running (.array items :: stack) .value)
  | closeArray {stack : List Frame} {items : List Json} {next : State} (hadmits : admits (.array items.reverse))
      (h : complete (.array items.reverse) stack = some next) :
      JsonMove admits (.running (.array items :: stack) .separator) .closeBracket next
  | nextKey {stack : List Frame} {members : List (Str × Json)} :
      JsonMove admits (.running (.object members :: stack) .separator) .comma
        (.running (.object members :: stack) .key)
  | closeObject {stack : List Frame} {members : List (Str × Json)} {next : State}
      (hadmits : admits (.object members.reverse)) (h : complete (.object members.reverse) stack = some next) :
      JsonMove admits (.running (.object members :: stack) .separator) .closeBrace next

/-- A closed object has no two members of one name. -/
def AdmitsUnique : Json → Prop
  | .object members => (members.map Prod.fst).Nodup
  | _ => True

/-- `int` converts the number. -/
def AdmitsIntegers : Json → Prop
  | .number lexeme => lexeme.isOverlong = false
  | _ => True

theorem tokens_eq_singleton {value : Json} {token : JsonToken} (h : value.tokens = [token]) :
    (value = .null ∧ token = .null) ∨ (∃ b, value = .bool b ∧ token = .bool b) ∨
    (∃ lexeme, value = .number lexeme ∧ token = .number lexeme) ∨ ∃ s, value = .string s ∧ token = .string s := by
  cases value with
  | null => exact .inl ⟨rfl, (List.cons.inj h).1.symm⟩
  | bool b => exact .inr (.inl ⟨b, rfl, (List.cons.inj h).1.symm⟩)
  | number lexeme => exact .inr (.inr (.inl ⟨lexeme, rfl, (List.cons.inj h).1.symm⟩))
  | string s => exact .inr (.inr (.inr ⟨s, rfl, (List.cons.inj h).1.symm⟩))
  | array items =>
    rw [Json.tokens_array] at h
    simp at h
  | object members =>
    rw [Json.tokens_object] at h
    simp at h

private theorem move_of_startValue {stack : List Frame} {expect : Expect} {token : JsonToken} {next : State}
    (hexpect : StartsValue expect) (h : startValue stack token = some next) :
    JsonMove AdmitsUnique (.running stack expect) token next := by
  cases token with
  | null => exact @JsonMove.scalar _ _ _ _ .null _ hexpect rfl trivial h
  | bool b => exact @JsonMove.scalar _ _ _ _ (.bool b) _ hexpect rfl trivial h
  | number lexeme => exact @JsonMove.scalar _ _ _ _ (.number lexeme) _ hexpect rfl trivial h
  | string s => exact @JsonMove.scalar _ _ _ _ (.string s) _ hexpect rfl trivial h
  | openBracket =>
    obtain rfl := Option.some.inj h
    exact .openArray hexpect
  | openBrace =>
    obtain rfl := Option.some.inj h
    exact .openObject hexpect
  | closeBrace => cases h
  | closeBracket => cases h
  | colon => cases h
  | comma => cases h

private theorem move_of_readKey {stack : List Frame} {expect : Expect} {token : JsonToken} {next : State}
    (hexpect : expect = .firstKey ∨ expect = .key) (h : readKey stack token = some next) :
    JsonMove AdmitsUnique (.running stack expect) token next := by
  unfold readKey at h
  split at h
  · obtain rfl := Option.some.inj h
    exact .key _ hexpect
  · cases h

private theorem move_of_afterSeparator {stack : List Frame} {token : JsonToken} {next : State}
    (h : afterSeparator stack token = some next) :
    JsonMove AdmitsUnique (.running stack .separator) token next := by
  unfold afterSeparator at h
  split at h
  · obtain rfl := Option.some.inj h
    exact .nextItem
  · exact .closeArray trivial h
  · obtain rfl := Option.some.inj h
    exact .nextKey
  · rename_i members stack
    by_cases hkeys : (members.map Prod.fst).Nodup
    · rw [if_pos hkeys] at h
      refine .closeObject ?_ h
      rw [AdmitsUnique, List.map_reverse, List.nodup_reverse]
      exact hkeys
    · rw [if_neg hkeys] at h
      cases h
  · cases h

theorem step_firstItem {stack : List Frame} {token : JsonToken} (h : token ≠ .closeBracket) :
    step (.running stack .firstItem) token = startValue stack token := by
  unfold step
  dsimp only
  split
  · exact absurd rfl h
  · rfl

theorem step_startsValue {stack : List Frame} {expect : Expect} {token : JsonToken}
    (hexpect : StartsValue expect) (h : token ≠ .closeBracket) :
    step (.running stack expect) token = startValue stack token := by
  rcases hexpect with rfl | rfl
  · rfl
  · exact step_firstItem h

theorem step_key {stack : List Frame} {expect : Expect} {members : List (Str × Json)} {key : Str}
    (hexpect : expect = .firstKey ∨ expect = .key) :
    step (.running (.object members :: stack) expect) (.string key) =
      some (.running (.member members key :: stack) .colon) := by
  rcases hexpect with rfl | rfl
  · cases members with
    | nil => rfl
    | cons member members => rfl
  · rfl

/-- The moves of the parser that refuses repeated keys. -/
theorem step_iff {state next : State} {token : JsonToken} :
    step state token = some next ↔ JsonMove AdmitsUnique state token next := by
  constructor
  · intro h
    cases state with
    | done value => cases h
    | running stack expect =>
      cases expect with
      | value => exact move_of_startValue (.inl rfl) h
      | firstItem =>
        unfold step at h
        dsimp only at h
        split at h
        · exact .emptyArray trivial h
        · exact move_of_startValue (.inr rfl) h
      | firstKey =>
        unfold step at h
        dsimp only at h
        split at h
        · exact .emptyObject List.nodup_nil h
        · exact move_of_readKey (.inl rfl) h
      | key => exact move_of_readKey (.inr rfl) h
      | colon =>
        rw [step] at h
        obtain ⟨rfl, h⟩ | ⟨_, h⟩ := ite_eq_iff.mp h
        · obtain rfl := Option.some.inj h
          exact .colon
        · cases h
      | separator => exact move_of_afterSeparator h
  · intro h
    cases h with
    | scalar hexpect htokens _ h =>
      obtain ⟨rfl, rfl⟩ | ⟨b, rfl, rfl⟩ | ⟨lexeme, rfl, rfl⟩ | ⟨s, rfl, rfl⟩ := tokens_eq_singleton htokens
      · exact Eq.trans (step_startsValue hexpect nofun) h
      · exact Eq.trans (step_startsValue hexpect nofun) h
      · exact Eq.trans (step_startsValue hexpect nofun) h
      · exact Eq.trans (step_startsValue hexpect nofun) h
    | openArray hexpect => exact step_startsValue hexpect nofun
    | openObject hexpect => exact step_startsValue hexpect nofun
    | emptyArray _ h => exact h
    | emptyObject _ h => exact h
    | key key hexpect => exact step_key hexpect
    | colon => rfl
    | nextItem => rfl
    | closeArray _ h => exact h
    | nextKey => rfl
    | closeObject hadmits h =>
      rw [AdmitsUnique, List.map_reverse, List.nodup_reverse] at hadmits
      exact (if_pos hadmits).trans h

theorem loadToken_eq_step {state : State} {token : JsonToken} (hnumber : ∀ lexeme, token ≠ .number lexeme)
    (hclose : token ≠ .closeBrace) : loadToken state token = step state token := by
  unfold loadToken
  split
  · exact absurd rfl hclose
  · exact absurd rfl (hnumber _)
  · rfl

theorem loadToken_number (state : State) (lexeme : Numeral) :
    loadToken state (.number lexeme) = if lexeme.isOverlong then none else step state (.number lexeme) := by
  unfold loadToken
  split
  · rename_i h
    cases h
  · rename_i h
    obtain rfl := JsonToken.number.inj h
    rfl
  · rename_i h _
    exact absurd rfl (h lexeme)

/-- The moves of the parser that refuses long integers. -/
theorem loadToken_iff {state next : State} {token : JsonToken} :
    loadToken state token = some next ↔ JsonMove AdmitsIntegers state token next := by
  constructor
  · intro h
    by_cases hlong : ∃ lexeme, token = .number lexeme ∧ lexeme.isOverlong = true
    · obtain ⟨lexeme, rfl, hlong⟩ := hlong
      rw [loadToken_number, if_pos hlong] at h
      cases h
    by_cases hclose : ∃ members stack, state = .running (.object members :: stack) .separator ∧
        token = .closeBrace
    · obtain ⟨members, stack, rfl, rfl⟩ := hclose
      exact .closeObject trivial h
    have hstep : step state token = some next := by
      cases token with
      | number lexeme =>
        rw [loadToken_number, if_neg fun hover => hlong ⟨lexeme, rfl, hover⟩] at h
        exact h
      | closeBrace =>
        unfold loadToken at h
        split at h
        · exact absurd ⟨_, _, rfl, rfl⟩ hclose
        · rename_i htoken
          cases htoken
        · exact h
      | _ => exact Eq.trans (Eq.symm (loadToken_eq_step nofun nofun)) h
    cases step_iff.mp hstep with
    | @scalar stack expect token value next hexpect htokens _ hcomplete =>
      refine .scalar hexpect htokens ?_ hcomplete
      cases value with
      | number lexeme =>
        rw [AdmitsIntegers, Bool.eq_false_iff]
        exact fun hover => hlong ⟨lexeme, (List.cons.inj htokens).1.symm, hover⟩
      | _ => trivial
    | openArray hexpect => exact .openArray hexpect
    | openObject hexpect => exact .openObject hexpect
    | emptyArray _ h => exact .emptyArray trivial h
    | emptyObject _ h => exact .emptyObject trivial h
    | key key hexpect => exact .key key hexpect
    | colon => exact .colon
    | nextItem => exact .nextItem
    | closeArray _ h => exact .closeArray trivial h
    | nextKey => exact .nextKey
    | closeObject _ h => exact absurd ⟨_, _, rfl, rfl⟩ hclose
  · intro h
    cases h with
    | scalar hexpect htokens hadmits h =>
      obtain ⟨rfl, rfl⟩ | ⟨b, rfl, rfl⟩ | ⟨lexeme, rfl, rfl⟩ | ⟨s, rfl, rfl⟩ := tokens_eq_singleton htokens
      · refine Eq.trans (loadToken_eq_step nofun nofun) ?_
        exact Eq.trans (step_startsValue hexpect nofun) h
      · refine Eq.trans (loadToken_eq_step nofun nofun) ?_
        exact Eq.trans (step_startsValue hexpect nofun) h
      · rw [loadToken_number, if_neg (Bool.eq_false_iff.mp hadmits)]
        exact Eq.trans (step_startsValue hexpect nofun) h
      · refine Eq.trans (loadToken_eq_step nofun nofun) ?_
        exact Eq.trans (step_startsValue hexpect nofun) h
    | openArray hexpect => exact Eq.trans (loadToken_eq_step nofun nofun) (step_startsValue hexpect nofun)
    | openObject hexpect => exact Eq.trans (loadToken_eq_step nofun nofun) (step_startsValue hexpect nofun)
    | emptyArray _ h => exact h
    | emptyObject _ h => exact h
    | key key hexpect => exact Eq.trans (loadToken_eq_step nofun nofun) (step_key hexpect)
    | colon => exact Eq.trans (loadToken_eq_step nofun nofun) rfl
    | nextItem => rfl
    | closeArray _ h => exact h
    | nextKey => rfl
    | closeObject _ h => exact h

end Moves

section Soundness
variable {admits : Json → Prop}

/-- The tokens of an open container, each part with the comma that must follow it. -/
def frameTokens : Frame → List JsonToken
  | .array items => .openBracket :: items.reverse.flatMap fun item => item.tokens ++ [.comma]
  | .object members => .openBrace :: members.reverse.flatMap fun member => memberTokens member ++ [.comma]
  | .member members key =>
    .openBrace :: ((members.reverse.flatMap fun member => memberTokens member ++ [.comma]) ++
      [.string key, .colon])

def stackTokens : List Frame → List JsonToken
  | [] => []
  | frame :: stack => stackTokens stack ++ frameTokens frame

def FrameAdmitted (admits : Json → Prop) : Frame → Prop
  | .array items => ∀ item ∈ items, Admitted admits item
  | .object members => ∀ member ∈ members, Admitted admits member.2
  | .member members _ => ∀ member ∈ members, Admitted admits member.2

/-- What has still to be read for what is on the stack. -/
def pending : Expect → List JsonToken
  | .colon => [.colon]
  | .separator => [.comma]
  | _ => []

/-- The tokens that have been read are those of what has been made of them. -/
def Reads (admits : Json → Prop) (consumed : List JsonToken) : State → Prop
  | .running stack expect =>
    (∀ frame ∈ stack, FrameAdmitted admits frame) ∧ consumed ++ pending expect = stackTokens stack
  | .done value => consumed = value.tokens ∧ Admitted admits value

theorem pending_startsValue {expect : Expect} (h : StartsValue expect) : pending expect = [] := by
  rcases h with rfl | rfl
  · rfl
  · rfl

theorem reads_complete {value : Json} {stack : List Frame} {next : State}
    (h : complete value stack = some next) (hvalue : Admitted admits value)
    (hstack : ∀ frame ∈ stack, FrameAdmitted admits frame) :
    Reads admits (stackTokens stack ++ value.tokens) next := by
  cases stack with
  | nil =>
    obtain rfl := Option.some.inj h
    exact ⟨rfl, hvalue⟩
  | cons frame stack =>
    obtain ⟨hframe, hbelow⟩ := List.forall_mem_cons.mp hstack
    cases frame with
    | array items =>
      obtain rfl := Option.some.inj h
      refine ⟨List.forall_mem_cons.mpr ⟨List.forall_mem_cons.mpr ⟨hvalue, hframe⟩, hbelow⟩, ?_⟩
      simp [stackTokens, frameTokens, pending]
    | object members => cases h
    | member members key =>
      obtain rfl := Option.some.inj h
      refine ⟨List.forall_mem_cons.mpr ⟨List.forall_mem_cons.mpr ⟨hvalue, hframe⟩, hbelow⟩, ?_⟩
      simp [stackTokens, frameTokens, pending, memberTokens]

/-- With the last comma not read, the parts have commas between them. -/
theorem separated_of_pending {consumed before : List JsonToken} {opening : JsonToken}
    (hopening : opening ≠ .comma) {parts : List (List JsonToken)}
    (h : consumed ++ [.comma] = before ++ opening :: parts.flatMap fun part => part ++ [.comma]) :
    consumed = before ++ opening :: separatedBy .comma parts := by
  rcases List.eq_nil_or_concat parts with rfl | ⟨parts, last, rfl⟩
  · obtain ⟨_, hlast⟩ := List.append_inj' h rfl
    exact absurd (List.cons.inj hlast).1.symm hopening
  · rw [List.concat_eq_append] at h ⊢
    rw [List.flatMap_append, List.flatMap_singleton, ← List.append_assoc, ← List.cons_append,
      ← List.append_assoc] at h
    rw [List.append_cancel_right h, separatedBy_concat]

theorem admitted_scalar {value : Json} {token : JsonToken} (h : value.tokens = [token]) (hadmits : admits value) :
    Admitted admits value := by
  obtain ⟨rfl, rfl⟩ | ⟨b, rfl, rfl⟩ | ⟨lexeme, rfl, rfl⟩ | ⟨s, rfl, rfl⟩ := tokens_eq_singleton h
  · exact .null hadmits
  · exact .bool hadmits
  · exact .number hadmits
  · exact .string hadmits

/-- One token. -/
theorem reads_step {consumed : List JsonToken} {state next : State} {token : JsonToken}
    (h : Reads admits consumed state) (hmove : JsonMove admits state token next) :
    Reads admits (consumed ++ [token]) next := by
  cases hmove with
  | scalar hexpect htokens hadmits hcomplete =>
    obtain ⟨hstack, hconsumed⟩ := h
    rw [pending_startsValue hexpect, List.append_nil] at hconsumed
    rw [hconsumed, ← htokens]
    exact reads_complete hcomplete (admitted_scalar htokens hadmits) hstack
  | openArray hexpect =>
    obtain ⟨hstack, hconsumed⟩ := h
    rw [pending_startsValue hexpect, List.append_nil] at hconsumed
    refine ⟨List.forall_mem_cons.mpr ⟨fun _ h => absurd h List.not_mem_nil, hstack⟩, ?_⟩
    rw [hconsumed, pending_startsValue (.inr rfl), List.append_nil]
    rfl
  | openObject hexpect =>
    obtain ⟨hstack, hconsumed⟩ := h
    rw [pending_startsValue hexpect, List.append_nil] at hconsumed
    refine ⟨List.forall_mem_cons.mpr ⟨fun _ h => absurd h List.not_mem_nil, hstack⟩, ?_⟩
    rw [hconsumed]
    exact List.append_nil _
  | emptyArray hadmits hcomplete =>
    obtain ⟨hstack, hconsumed⟩ := h
    have hread := reads_complete hcomplete (.array hadmits fun _ h => absurd h List.not_mem_nil)
      (List.forall_mem_cons.mp hstack).2
    have htokens := (List.append_nil consumed).symm.trans hconsumed
    rw [htokens, stackTokens, List.append_assoc]
    exact hread
  | emptyObject hadmits hcomplete =>
    obtain ⟨hstack, hconsumed⟩ := h
    have hread := reads_complete hcomplete (.object hadmits fun _ h => absurd h List.not_mem_nil)
      (List.forall_mem_cons.mp hstack).2
    have htokens := (List.append_nil consumed).symm.trans hconsumed
    rw [htokens, stackTokens, List.append_assoc]
    exact hread
  | @key stack expect members key hexpect =>
    obtain ⟨hstack, hconsumed⟩ := h
    have hpending : pending expect = [] := by rcases hexpect with rfl | rfl <;> rfl
    rw [hpending, List.append_nil] at hconsumed
    obtain ⟨hframe, hbelow⟩ := List.forall_mem_cons.mp hstack
    refine ⟨List.forall_mem_cons.mpr ⟨hframe, hbelow⟩, ?_⟩
    rw [hconsumed]
    simp [stackTokens, frameTokens, pending]
  | colon =>
    obtain ⟨hstack, hconsumed⟩ := h
    exact ⟨hstack, (List.append_nil _).trans hconsumed⟩
  | nextItem =>
    obtain ⟨hstack, hconsumed⟩ := h
    exact ⟨hstack, (List.append_nil _).trans hconsumed⟩
  | @closeArray stack items _ hadmits hcomplete =>
    obtain ⟨hstack, hconsumed⟩ := h
    obtain ⟨hframe, hbelow⟩ := List.forall_mem_cons.mp hstack
    have hitems : ∀ item ∈ items.reverse, Admitted admits item :=
      fun item hitem => hframe item (List.mem_reverse.mp hitem)
    have hread := reads_complete hcomplete (.array hadmits hitems) hbelow
    rw [stackTokens, frameTokens, ← List.flatMap_map Json.tokens fun part => part ++ [JsonToken.comma]] at hconsumed
    have hopening : JsonToken.openBracket ≠ .comma := nofun
    rw [separated_of_pending hopening hconsumed, List.append_assoc]
    rw [Json.tokens_array] at hread
    exact hread
  | nextKey =>
    obtain ⟨hstack, hconsumed⟩ := h
    exact ⟨hstack, (List.append_nil _).trans hconsumed⟩
  | @closeObject stack members _ hadmits hcomplete =>
    obtain ⟨hstack, hconsumed⟩ := h
    obtain ⟨hframe, hbelow⟩ := List.forall_mem_cons.mp hstack
    have hmembers : ∀ member ∈ members.reverse, Admitted admits member.2 :=
      fun member hmember => hframe member (List.mem_reverse.mp hmember)
    have hread := reads_complete hcomplete (.object hadmits hmembers) hbelow
    rw [stackTokens, frameTokens, ← List.flatMap_map memberTokens fun part => part ++ [JsonToken.comma]] at hconsumed
    have hopening : JsonToken.openBrace ≠ .comma := nofun
    rw [separated_of_pending hopening hconsumed, List.append_assoc]
    rw [Json.tokens_object] at hread
    exact hread

theorem reads_run {f : State → JsonToken → Option State}
    (hf : ∀ {state token next}, f state token = some next → JsonMove admits state token next)
    {consumed tokens : List JsonToken} {state next : State} (h : Reads admits consumed state)
    (hrun : tokens.foldlM f state = some next) : Reads admits (consumed ++ tokens) next := by
  induction tokens generalizing consumed state with
  | nil =>
    obtain rfl := Option.some.inj hrun
    rw [List.append_nil]
    exact h
  | cons token tokens ih =>
    obtain ⟨middle, hstep, hrest⟩ := Option.bind_eq_some_iff.mp hrun
    have hread := ih (reads_step h (hf hstep)) hrest
    rwa [List.append_assoc] at hread

end Soundness

section Completeness
variable {admits : Json → Prop} {f : State → JsonToken → Option State}

theorem run_cons {state middle next : State} {token : JsonToken} {tokens : List JsonToken}
    (hstep : f state token = some middle) (hrest : tokens.foldlM f middle = some next) :
    (token :: tokens).foldlM f state = some next := by
  rw [List.foldlM_cons, hstep]
  exact hrest

theorem run_append {state middle next : State} {tokens more : List JsonToken}
    (h : tokens.foldlM f state = some middle) (hrest : more.foldlM f middle = some next) :
    (tokens ++ more).foldlM f state = some next := by
  rw [List.foldlM_append, h]
  exact hrest

/-- The tokens of a value complete it, wherever it may stand. -/
def Completes (f : State → JsonToken → Option State) (value : Json) : Prop :=
  ∀ {stack : List Frame} {expect : Expect} {next : State}, StartsValue expect →
    complete value stack = some next → value.tokens.foldlM f (.running stack expect) = some next

variable (hf : ∀ {state token next}, JsonMove admits state token next → f state token = some next)
include hf

private theorem run_items {stack : List Frame} {done items : List Json} {item : Json} {expect : Expect}
    (hexpect : StartsValue expect) (h : ∀ value ∈ item :: items, Completes f value) :
    (separatedBy .comma ((item :: items).map Json.tokens)).foldlM f (.running (.array done :: stack) expect) =
      some (.running (.array ((item :: items).reverse ++ done) :: stack) .separator) := by
  induction items generalizing item done expect with
  | nil =>
    have hitem : Completes f item := h item List.mem_cons_self
    have hlast := @hitem (.array done :: stack) _ _ hexpect rfl
    simpa [separatedBy] using hlast
  | cons second items ih =>
    obtain ⟨hitem, hitems⟩ := List.forall_mem_cons.mp h
    have hfirst := @hitem (.array done :: stack) _ _ hexpect rfl
    rw [List.map_cons, List.map_cons, separatedBy_cons_cons, List.reverse_cons, List.append_assoc]
    exact run_append hfirst (run_cons (hf .nextItem) (ih (.inl rfl) hitems))

private theorem run_member {stack : List Frame} {done : List (Str × Json)} {member : Str × Json}
    {expect : Expect} (hexpect : expect = .firstKey ∨ expect = .key) (h : Completes f member.2) :
    (memberTokens member).foldlM f (.running (.object done :: stack) expect) =
      some (.running (.object (member :: done) :: stack) .separator) := by
  have hvalue := @h (.member done member.1 :: stack) _ _ (.inl rfl) rfl
  exact run_cons (hf (.key member.1 hexpect)) (run_cons (hf .colon) hvalue)

private theorem run_members {stack : List Frame} {done members : List (Str × Json)} {member : Str × Json}
    {expect : Expect} (hexpect : expect = .firstKey ∨ expect = .key)
    (h : ∀ m ∈ member :: members, Completes f m.2) :
    (separatedBy .comma ((member :: members).map memberTokens)).foldlM f
        (.running (.object done :: stack) expect) =
      some (.running (.object ((member :: members).reverse ++ done) :: stack) .separator) := by
  induction members generalizing member done expect with
  | nil =>
    rw [List.map_singleton, separatedBy, List.flatMap_nil, List.append_nil]
    exact run_member hf hexpect (h member List.mem_cons_self)
  | cons second members ih =>
    obtain ⟨hmember, hmembers⟩ := List.forall_mem_cons.mp h
    rw [List.map_cons, List.map_cons, separatedBy_cons_cons, List.reverse_cons, List.append_assoc]
    exact run_append (run_member hf hexpect hmember) (run_cons (hf .nextKey) (ih (.inr rfl) hmembers))

/-- The parser makes of the tokens of a value the value. -/
theorem completes {value : Json} (h : Admitted admits value) : Completes f value := by
  induction h with
  | null h => exact fun hexpect hnext => run_cons (hf (.scalar hexpect rfl h hnext)) rfl
  | bool h => exact fun hexpect hnext => run_cons (hf (.scalar hexpect rfl h hnext)) rfl
  | number h => exact fun hexpect hnext => run_cons (hf (.scalar hexpect rfl h hnext)) rfl
  | string h => exact fun hexpect hnext => run_cons (hf (.scalar hexpect rfl h hnext)) rfl
  | @array items h _ ih =>
    intro stack expect next hexpect hnext
    rw [Json.tokens_array]
    refine run_cons (hf (.openArray hexpect)) ?_
    cases items with
    | nil => exact run_cons (hf (.emptyArray h hnext)) rfl
    | cons item items =>
      refine run_append (run_items hf (.inr rfl) ih) (run_cons (hf (.closeArray ?_ ?_)) rfl)
      · rw [List.append_nil, List.reverse_reverse]
        exact h
      · rw [List.append_nil, List.reverse_reverse]
        exact hnext
  | @object members h _ ih =>
    intro stack expect next hexpect hnext
    rw [Json.tokens_object]
    refine run_cons (hf (.openObject hexpect)) ?_
    cases members with
    | nil => exact run_cons (hf (.emptyObject h hnext)) rfl
    | cons member members =>
      refine run_append (run_members hf (.inl rfl) ih) (run_cons (hf (.closeObject ?_ ?_)) rfl)
      · rw [List.append_nil, List.reverse_reverse]
        exact h
      · rw [List.append_nil, List.reverse_reverse]
        exact hnext

end Completeness

/-- What a parser that takes these moves makes of a list of tokens. -/
theorem foldlM_done_iff {admits : Json → Prop} {f : State → JsonToken → Option State}
    (hf : ∀ {state token next}, f state token = some next ↔ JsonMove admits state token next)
    {tokens : List JsonToken} {value : Json} :
    tokens.foldlM f (.running [] .value) = some (.done value) ↔ tokens = value.tokens ∧ Admitted admits value := by
  constructor
  · intro h
    have hstart : Reads admits [] (.running [] .value) := ⟨fun _ h => absurd h List.not_mem_nil, rfl⟩
    exact reads_run hf.mp hstart h
  · rintro ⟨rfl, hadmitted⟩
    exact completes hf.mpr hadmitted (.inl rfl) rfl

end AgenticRag.Python
