import AgenticRag.Python.JsonMachine

/-! What `json.loads` returns: a value, exactly for the texts of it whose parts are admitted. -/
namespace AgenticRag.Python
open Lib JsonParser

section Unique

theorem admitted_unique_iff {value : Json} : Admitted AdmitsUnique value ↔ UniqueKeys value := by
  constructor
  · intro h
    induction h with
    | null => exact .null
    | bool => exact .bool _
    | number => exact .number _
    | string => exact .string _
    | array _ _ ih => exact .array ih
    | object hkeys _ ih => exact .object hkeys ih
  · intro h
    induction h with
    | null => exact .null trivial
    | bool => exact .bool trivial
    | number => exact .number trivial
    | string => exact .string trivial
    | array _ ih => exact .array trivial ih
    | object hkeys _ ih => exact .object hkeys ih

theorem parseFrom_eq_some {state : State} {tokens : List JsonToken} {value : Json} :
    parseFrom state tokens = some value ↔ tokens.foldlM step state = some (.done value) := by
  induction tokens generalizing state with
  | nil =>
    cases state with
    | running stack expect => exact iff_of_false nofun nofun
    | done other =>
      refine Option.some_inj.trans (Iff.trans ?_ Option.some_inj.symm)
      exact ⟨fun h => h ▸ rfl, State.done.inj⟩
  | cons token tokens ih =>
    rw [List.foldlM_cons]
    cases state with
    | running stack expect =>
      rw [parseFrom, Option.bind_eq_some_iff, Option.bind_eq_bind, Option.bind_eq_some_iff]
      exact exists_congr fun middle => and_congr_right fun _ => ih
    | done other => exact iff_of_false nofun nofun

/-- The texts of the grammar without repeated keys are accepted, and no others. -/
theorem jsonLoads_eq_some {text : Str} {value : Json} :
    jsonLoads text = some value ↔ JsonText text value ∧ UniqueKeys value := by
  rw [jsonLoads, Option.bind_eq_some_iff, ← scanFrom_eq_tokens, ← admitted_unique_iff]
  constructor
  · rintro ⟨tokens, hscan, hparse⟩
    obtain ⟨rfl, hadmitted⟩ := (foldlM_done_iff step_iff).mp (parseFrom_eq_some.mp hparse)
    exact ⟨hscan, hadmitted⟩
  · rintro ⟨hscan, hadmitted⟩
    exact ⟨_, hscan, parseFrom_eq_some.mpr ((foldlM_done_iff step_iff).mpr ⟨rfl, hadmitted⟩)⟩

end Unique

section Reach

def frameDepth : Frame → Nat
  | .array items => Json.itemsDepth items
  | .object members => Json.membersDepth members
  | .member members _ => Json.membersDepth members

def stackReach : List Frame → Nat
  | [] => 0
  | frame :: stack => max (frameDepth frame + 1 + stack.length) (stackReach stack)

/-- How deep the value must be that the state leads to. -/
def reach : State → Nat
  | .running stack _ => stackReach stack
  | .done value => value.depth

theorem length_le_stackReach (stack : List Frame) : stack.length ≤ stackReach stack := by
  cases stack with
  | nil => exact le_refl 0
  | cons frame stack =>
    rw [stackReach, List.length_cons]
    omega

theorem itemsDepth_reverse (items : List Json) : Json.itemsDepth items.reverse = Json.itemsDepth items := by
  refine eq_of_forall_ge_iff fun n => ?_
  rw [Json.itemsDepth_le, Json.itemsDepth_le]
  simp only [List.mem_reverse]

theorem membersDepth_reverse (members : List (Str × Json)) :
    Json.membersDepth members.reverse = Json.membersDepth members := by
  refine eq_of_forall_ge_iff fun n => ?_
  rw [Json.membersDepth_le, Json.membersDepth_le]
  simp only [List.mem_reverse]

theorem reach_complete {value : Json} {stack : List Frame} {next : State}
    (h : complete value stack = some next) :
    stackReach stack ≤ reach next ∧ value.depth + stack.length ≤ reach next := by
  cases stack with
  | nil =>
    obtain rfl := Option.some.inj h
    exact ⟨Nat.zero_le _, le_refl _⟩
  | cons frame stack =>
    cases frame with
    | array items =>
      obtain rfl := Option.some.inj h
      simp only [reach, stackReach, frameDepth, Json.itemsDepth, List.length_cons]
      omega
    | object members => cases h
    | member members key =>
      obtain rfl := Option.some.inj h
      simp only [reach, stackReach, frameDepth, Json.membersDepth, List.length_cons]
      omega

/-- A closed container is a value that is as deep as the container reaches. -/
theorem reach_close {value : Json} {frame : Frame} {stack : List Frame} {expect : Expect} {next : State}
    (h : complete value stack = some next) (hdepth : frameDepth frame + 1 = value.depth) :
    reach (.running (frame :: stack) expect) ≤ reach next := by
  obtain ⟨hstack, hvalue⟩ := reach_complete h
  rw [← hdepth] at hvalue
  exact max_le hvalue hstack

/-- No move makes the value less deep. -/
theorem reach_step {admits : Json → Prop} {state next : State} {token : JsonToken}
    (h : JsonMove admits state token next) : reach state ≤ reach next := by
  cases h with
  | scalar _ _ _ h => exact (reach_complete h).1
  | openArray => exact le_max_right _ _
  | openObject => exact le_max_right _ _
  | emptyArray _ h => exact reach_close h rfl
  | emptyObject _ h => exact reach_close h rfl
  | key => exact le_refl _
  | colon => exact le_refl _
  | nextItem => exact le_refl _
  | @closeArray _ items _ _ h =>
    refine reach_close h ?_
    rw [Json.depth, itemsDepth_reverse, frameDepth]
  | nextKey => exact le_refl _
  | @closeObject _ members _ _ h =>
    refine reach_close h ?_
    rw [Json.depth, membersDepth_reverse, frameDepth]

theorem reach_run {tokens : List JsonToken} {state next : State}
    (h : tokens.foldlM loadToken state = some next) : reach state ≤ reach next := by
  induction tokens generalizing state with
  | nil =>
    obtain rfl := Option.some.inj h
    exact le_refl _
  | cons token tokens ih =>
    obtain ⟨middle, hstep, hrest⟩ := Option.bind_eq_some_iff.mp h
    exact (reach_step (loadToken_iff.mp hstep)).trans (ih hrest)

end Reach

section Within

theorem JsonReading.depth_le_reach (reading : JsonReading) : reading.depth ≤ reach reading.parser := by
  obtain ⟨scanner, parser⟩ := reading
  cases parser with
  | running stack expect => exact length_le_stackReach stack
  | done value => exact Nat.zero_le _

theorem JsonReading.next_eq_some {reading next : JsonReading} {c : CodePoint} :
    reading.next c = some next ↔ ∃ tokens, JsonScanner.step reading.scanner c = some (tokens, next.scanner) ∧
      tokens.foldlM loadToken reading.parser = some next.parser := by
  rw [JsonReading.next, Option.bind_eq_some_iff]
  constructor
  · rintro ⟨⟨tokens, scanner⟩, hstep, hload⟩
    obtain ⟨parser, hparser, rfl⟩ := Option.map_eq_some_iff.mp hload
    exact ⟨tokens, hstep, hparser⟩
  · rintro ⟨tokens, hstep, hparser⟩
    exact ⟨(tokens, next.scanner), hstep, Option.map_eq_some_iff.mpr ⟨next.parser, hparser, rfl⟩⟩

theorem JsonReading.finish_eq_ok {reading : JsonReading} {value : Json} :
    reading.finish = .ok value ↔ ∃ tokens, JsonScanner.finish reading.scanner = some tokens ∧
      tokens.foldlM loadToken reading.parser = some (.done value) := by
  rw [← Option.bind_eq_some_iff]
  unfold JsonReading.finish
  split
  · rename_i other hother
    constructor
    · intro h
      obtain rfl := Except.ok.inj h
      exact hother
    · intro h
      obtain rfl := State.done.inj (Option.some.inj (hother.symm.trans h))
      rfl
  · rename_i hnone
    exact iff_of_false nofun (hnone value)

/-- Character by character, and token by token. -/
theorem foldlM_next_iff {text : Str} {reading : JsonReading} {value : Json} :
    (∃ last, text.foldlM JsonReading.next reading = some last ∧ last.finish = .ok value) ↔
      ∃ tokens, JsonScanner.scanFrom reading.scanner text = some tokens ∧
        tokens.foldlM loadToken reading.parser = some (.done value) := by
  induction text generalizing reading with
  | nil =>
    rw [JsonScanner.scanFrom, ← JsonReading.finish_eq_ok]
    constructor
    · rintro ⟨last, hlast, h⟩
      obtain rfl := Option.some.inj hlast
      exact h
    · exact fun h => ⟨reading, rfl, h⟩
  | cons c text ih =>
    constructor
    · rintro ⟨last, hrun, h⟩
      obtain ⟨next, hnext, hrest⟩ := Option.bind_eq_some_iff.mp hrun
      obtain ⟨tokens, hstep, hload⟩ := JsonReading.next_eq_some.mp hnext
      obtain ⟨more, hscan, hmore⟩ := ih.mp ⟨last, hrest, h⟩
      refine ⟨tokens ++ more, ?_, run_append hload hmore⟩
      rw [scanFrom_cons hstep, hscan, Option.map_some]
    · rintro ⟨tokens, hscan, h⟩
      rw [JsonScanner.scanFrom] at hscan
      cases hstep : JsonScanner.step reading.scanner c with
      | none =>
        rw [hstep] at hscan
        cases hscan
      | some r =>
        obtain ⟨found, scanner⟩ := r
        rw [hstep] at hscan
        obtain ⟨more, hmore, rfl⟩ := Option.map_eq_some_iff.mp hscan
        rw [List.foldlM_append] at h
        obtain ⟨parser, hfound, hrest⟩ := Option.bind_eq_some_iff.mp h
        obtain ⟨last, hlast, hfinish⟩ := (@ih ⟨scanner, parser⟩).mpr ⟨more, hmore, hrest⟩
        refine ⟨last, Option.bind_eq_some_iff.mpr ⟨⟨scanner, parser⟩, ?_, hlast⟩, hfinish⟩
        exact JsonReading.next_eq_some.mpr ⟨found, hstep, hfound⟩

theorem reach_next {reading next : JsonReading} {c : CodePoint} (h : reading.next c = some next) :
    reach reading.parser ≤ reach next.parser := by
  obtain ⟨tokens, _, hload⟩ := JsonReading.next_eq_some.mp h
  exact reach_run hload

theorem foldlM_next_of_within {limit : Nat} {text : Str} {reading last : JsonReading}
    (h : text.foldlM (JsonReading.nextWithin limit) reading = .ok last) :
    text.foldlM JsonReading.next reading = some last := by
  induction text generalizing reading with
  | nil =>
    obtain rfl := Except.ok.inj h
    rfl
  | cons c text ih =>
    obtain ⟨next, hnext, hrest⟩ := bind_eq_ok.mp h
    refine Option.bind_eq_some_iff.mpr ⟨next, ?_, ih hrest⟩
    unfold JsonReading.nextWithin at hnext
    split at hnext
    · cases hnext
    · rename_i hsome
      split at hnext
      · cases hnext
      · obtain rfl := Except.ok.inj hnext
        exact hsome

/-- The limit is not passed on the way to a value that keeps to it. -/
theorem foldlM_within_of_next {limit : Nat} {text : Str} {reading last : JsonReading}
    (hlimit : reach last.parser ≤ limit) (h : text.foldlM JsonReading.next reading = some last) :
    reach reading.parser ≤ limit ∧ text.foldlM (JsonReading.nextWithin limit) reading = .ok last := by
  induction text generalizing reading with
  | nil =>
    obtain rfl := Option.some.inj h
    exact ⟨hlimit, rfl⟩
  | cons c text ih =>
    obtain ⟨next, hnext, hrest⟩ := Option.bind_eq_some_iff.mp h
    obtain ⟨hreach, hrun⟩ := ih hrest
    have hdepth := next.depth_le_reach.trans hreach
    refine ⟨(reach_next hnext).trans hreach, bind_eq_ok.mpr ⟨next, ?_, hrun⟩⟩
    rw [JsonReading.nextWithin, hnext]
    exact if_neg (not_lt.mpr hdepth)

/-- What is returned is what the text denotes. -/
theorem jsonText_of_loadsWithin {limit : Nat} {text : Str} {value : Json}
    (h : jsonLoadsWithin limit text = .ok value) :
    JsonText text value ∧ Admitted AdmitsIntegers value := by
  obtain ⟨last, hrun, hfinish⟩ := bind_eq_ok.mp h
  obtain ⟨tokens, hscan, hload⟩ := foldlM_next_iff.mp ⟨last, foldlM_next_of_within hrun, hfinish⟩
  obtain ⟨rfl, hadmitted⟩ := (foldlM_done_iff loadToken_iff).mp hload
  exact ⟨scanFrom_eq_tokens.mp hscan, hadmitted⟩

/-- A text whose value keeps to both limits is read. -/
theorem jsonLoadsWithin_of_jsonText {limit : Nat} {text : Str} {value : Json} (h : JsonText text value)
    (hintegers : Admitted AdmitsIntegers value) (hdepth : value.depth ≤ limit) :
    jsonLoadsWithin limit text = .ok value := by
  have hload := (foldlM_done_iff loadToken_iff).mpr ⟨rfl, hintegers⟩
  obtain ⟨last, hrun, hfinish⟩ :=
    (@foldlM_next_iff text .start value).mpr ⟨_, scanFrom_eq_tokens.mpr h, hload⟩
  obtain ⟨tokens, _, hlast⟩ := JsonReading.finish_eq_ok.mp hfinish
  have hlimit : reach last.parser ≤ limit := (reach_run hlast).trans hdepth
  exact bind_eq_ok.mpr ⟨last, (foldlM_within_of_next hlimit hrun).2, hfinish⟩

end Within
end AgenticRag.Python
