import Frameleaf.Coalesced.Task

namespace Frameleaf.Coalesced

open Trace

/-!
# Reads after a clear and reads at the same time

What is remembered of a key began with a read that is still in force, and a
load that runs is remembered until a clear or its end.
-/

variable {Value : Type} {reuse : Reuse} {reads : Reads Value}

variable {id : String} {load forgotten : ℕ}

theorem Reads.remembered_of_pruned
    {started : ℚ}
    (left : reads.pruned started id = some load) :
    reads.remembered id = some load :=
  (Option.filter_eq_some_iff.mp left).1

theorem Reads.remembered_of_forget
    {entry : Load Value}
    (left : reads.forget forgotten entry id = some load) :
    reads.remembered id = some load := by
  unfold forget at left
  split at left
  · rw [Function.update_apply] at left
    split at left
    · exact nomatch left
    · exact left
  · exact left

theorem Reads.read_cases
    (reads : Reads Value)
    (id : String)
    (started : ℚ) :
    (∃ reused,
      reads.pruned started id = some reused ∧
        reads.read id started =
          ({ reads with remembered := reads.pruned started },
            ⟨reused, false⟩)) ∨
      reads.pruned started id = none ∧
        reads.read id started =
          ({ loads := reads.loads ++
              [{ id, started, outcome := none, noted := false
                 reusableUntil := ⊤ }]
             remembered := Function.update (reads.pruned started) id
              (some reads.loads.length) },
            ⟨reads.loads.length, true⟩) := by
  unfold read
  cases found : reads.pruned started id with
  | none =>
      exact Or.inr ⟨rfl, by simp only [found]⟩
  | some reused =>
      exact Or.inl ⟨reused, rfl, by simp only [found]⟩

theorem Reads.settle_cases
    (reads : Reads Value)
    (load : ℕ)
    (outcome : Option Value) :
    reads.settle load outcome = reads ∨
      ∃ entry, reads.loads[load]? = some entry ∧ entry.outcome = none ∧
        reads.settle load outcome =
          { reads with
            loads := reads.loads.set load
              { entry with outcome := some outcome } } := by
  unfold settle
  cases found : reads.loads[load]? with
  | none =>
      exact Or.inl rfl
  | some entry =>
      dsimp only
      split
      · rename_i running
        exact Or.inr ⟨entry, rfl, Option.isNone_iff_eq_none.mp running, rfl⟩
      · exact Or.inl rfl

theorem Reads.note_cases
    (reuse : Reuse)
    (reads : Reads Value)
    (load : ℕ)
    (ended notedAt : ℚ) :
    reads.note reuse load ended notedAt = reads ∨
      ∃ entry reusableUntil remembered,
        reads.loads[load]? = some entry ∧ entry.noted = false ∧
          (remembered = reads.remembered ∨
            remembered = reads.forget load entry) ∧
          reads.note reuse load ended notedAt =
            { loads := reads.loads.set load
                { entry with noted := true, reusableUntil }
              remembered } := by
  unfold note
  cases found : reads.loads[load]? with
  | none =>
      exact Or.inl rfl
  | some entry =>
      dsimp only
      split
      · rename_i finished unnoted
        split
        · exact Or.inr ⟨entry, _, _, rfl, unnoted, Or.inl rfl, rfl⟩
        · exact Or.inr ⟨entry, entry.reusableUntil, _, rfl, unnoted,
            Or.inr rfl, rfl⟩
      · rename_i failed unnoted
        exact Or.inr ⟨entry, entry.reusableUntil, _, rfl, unnoted,
          Or.inr rfl, rfl⟩
      · exact Or.inl rfl

theorem remembered_perform
    {step : ReadStep Value}
    (after : (performRead reuse reads step).1.remembered id = some load) :
    reads.remembered id = some load ∨
      (performRead reuse reads step).2 = some ⟨load, true⟩ := by
  cases step with
  | read other now =>
      simp only [performRead] at after ⊢
      rcases reads.read_cases other now with
        ⟨reused, found, readEq⟩ | ⟨unknown, readEq⟩
      · rw [readEq] at after
        exact Or.inl (Reads.remembered_of_pruned after)
      · rw [readEq] at after ⊢
        dsimp only [Prod.map] at after ⊢
        rw [Function.update_apply] at after
        split at after
        · cases after
          exact Or.inr rfl
        · exact Or.inl (Reads.remembered_of_pruned after)
  | clear =>
      exact nomatch after
  | settle settled outcome =>
      simp only [performRead] at after
      rcases reads.settle_cases settled outcome with
        settleEq | ⟨entry, -, -, settleEq⟩
      · rw [settleEq] at after
        exact Or.inl after
      · rw [settleEq] at after
        exact Or.inl after
  | note noted ended notedAt =>
      simp only [performRead] at after
      rcases reads.note_cases reuse noted ended notedAt with
        noteEq | ⟨entry, _, remembered, -, -, remains, noteEq⟩
      · rw [noteEq] at after
        exact Or.inl after
      · rw [noteEq] at after
        rcases remains with rfl | rfl
        · exact Or.inl after
        · exact Or.inl (Reads.remembered_of_forget after)

variable {answered : Answered}

theorem answered_perform
    {step : ReadStep Value}
    (answers : (performRead reuse reads step).2 = some answered) :
    (performRead reuse reads step).2 = some ⟨answered.load, true⟩ ∨
      ∃ id, reads.remembered id = some answered.load := by
  cases step with
  | read id now =>
      simp only [performRead] at answers ⊢
      rcases reads.read_cases id now with
        ⟨reused, found, readEq⟩ | ⟨unknown, readEq⟩
      · rw [readEq] at answers
        cases answers
        exact Or.inr ⟨id, Reads.remembered_of_pruned found⟩
      · rw [readEq] at answers ⊢
        cases answers
        exact Or.inl rfl
  | clear | settle settled outcome | note noted ended notedAt =>
      exact nomatch answers

/-- A step, with the reads before and after it. -/
abbrev ReadEntry (Value : Type) :=
  Entry (Reads Value) (ReadStep Value) (Option Answered)

/-- Everything that is remembered began with one of some steps. -/
def Began
    (past : List (ReadEntry Value))
    (reads : Reads Value) : Prop :=
  ∀ id load, reads.remembered id = some load →
    ∃ begun ∈ past, begun.response = some ⟨load, true⟩

theorem Began.step
    {past : List (ReadEntry Value)}
    (began : Began past reads)
    (step : ReadStep Value) :
    Began (past ++ [entry (performRead reuse) reads step])
      (performRead reuse reads step).1 := by
  intro id load after
  rcases remembered_perform after with before | begins
  · obtain ⟨begun, member, response⟩ := began id load before
    exact ⟨begun, List.mem_append_left _ member, response⟩
  · exact ⟨_, List.mem_append_right past List.mem_cons_self, begins⟩

theorem began_of_forgotten
    {steps : List (ReadStep Value)}
    (forgotten : reads.remembered = fun _ => none)
    {earlier later : List (ReadEntry Value)}
    {reading : ReadEntry Value}
    (split : trace (performRead reuse) reads steps =
      earlier ++ reading :: later)
    (answers : reading.response = some answered) :
    ∃ begun ∈ earlier ++ [reading],
      begun.response = some ⟨answered.load, true⟩ := by
  obtain ⟨first, rest, rfl, firstEq, readingEq, -⟩ := around_of_trace_eq split
  have initially : Began [] reads := by
    intro id load isRemembered
    rw [forgotten] at isRemembered
    exact nomatch isRemembered
  have history : Began
      (trace (performRead reuse) reads first)
      (finalState (performRead reuse) reads first) :=
    holds_of_history (fun _ _ step began => began.step step) initially
  rw [firstEq] at history
  rw [readingEq] at answers
  rcases answered_perform answers with begins | ⟨id, isRemembered⟩
  · refine ⟨reading, List.mem_append_right _ List.mem_cons_self, ?_⟩
    rw [readingEq]
    exact begins
  · obtain ⟨begun, member, response⟩ := history id _ isRemembered
    exact ⟨begun, List.mem_append_left _ member, response⟩

/-- What is remembered is a load, and a load is reusable for ever until its end
is noted. -/
structure Reads.WellKept (reads : Reads Value) : Prop where
  known : ∀ id load, reads.remembered id = some load →
    load < reads.loads.length
  reusable : ∀ (load : ℕ) (entry : Load Value),
    reads.loads[load]? = some entry →
      entry.noted = false → entry.reusableUntil = ⊤

theorem loads_perform
    (reads : Reads Value)
    (step : ReadStep Value) :
    (performRead reuse reads step).1.loads.length = reads.loads.length ∧
        (∀ load, (performRead reuse reads step).2 ≠ some ⟨load, true⟩) ∨
      ∃ new,
        (performRead reuse reads step).1.loads = reads.loads ++ [new] ∧
          new.reusableUntil = ⊤ ∧
          (performRead reuse reads step).2 =
            some ⟨reads.loads.length, true⟩ := by
  cases step with
  | read id now =>
      simp only [performRead]
      rcases reads.read_cases id now with
        ⟨reused, found, readEq⟩ | ⟨unknown, readEq⟩
      · rw [readEq]
        refine Or.inl ⟨rfl, fun load answers => ?_⟩
        exact nomatch answers
      · rw [readEq]
        exact Or.inr ⟨_, rfl, rfl, rfl⟩
  | clear =>
      exact Or.inl ⟨rfl, nofun⟩
  | settle settled outcome =>
      simp only [performRead]
      rcases reads.settle_cases settled outcome with
        settleEq | ⟨entry, -, -, settleEq⟩
      · rw [settleEq]
        exact Or.inl ⟨rfl, nofun⟩
      · rw [settleEq, List.length_set]
        exact Or.inl ⟨rfl, nofun⟩
  | note noted ended notedAt =>
      simp only [performRead]
      rcases reads.note_cases reuse noted ended notedAt with
        noteEq | ⟨entry, _, remembered, -, -, -, noteEq⟩
      · rw [noteEq]
        exact Or.inl ⟨rfl, nofun⟩
      · rw [noteEq, List.length_set]
        exact Or.inl ⟨rfl, nofun⟩

/-- What became of a load in one step. -/
structure Load.Follows
    (before after : Load Value) : Prop where
  outcome : ∀ outcome, before.outcome = some outcome →
    after.outcome = some outcome
  noted : before.noted = true → after.noted = true
  unnoted : after.noted = false → after.reusableUntil = before.reusableUntil

theorem Load.Follows.refl (load : Load Value) : load.Follows load :=
  ⟨fun _ same => same, fun same => same, fun _ => rfl⟩

theorem follows_set
    {loads : List (Load Value)}
    {changed : ℕ}
    {old new entry : Load Value}
    (there : loads[changed]? = some old)
    (follows : old.Follows new)
    (found : loads[load]? = some entry) :
    ∃ after, (loads.set changed new)[load]? = some after ∧
      entry.Follows after := by
  by_cases same : changed = load
  · subst same
    cases there.symm.trans found
    refine ⟨new, ?_, follows⟩
    exact List.getElem?_set_self (List.getElem?_eq_some_iff.mp there).1
  · refine ⟨entry, ?_, .refl entry⟩
    rw [List.getElem?_set_ne same]
    exact found

theorem follows_perform
    {entry : Load Value}
    (found : reads.loads[load]? = some entry)
    (step : ReadStep Value) :
    ∃ after, (performRead reuse reads step).1.loads[load]? = some after ∧
      entry.Follows after := by
  cases step with
  | read id now =>
      simp only [performRead]
      rcases reads.read_cases id now with
        ⟨reused, -, readEq⟩ | ⟨unknown, readEq⟩
      · rw [readEq]
        exact ⟨entry, found, .refl entry⟩
      · rw [readEq]
        exact ⟨entry, List.getElem?_append_left
          (List.getElem?_eq_some_iff.mp found).1 ▸ found, .refl entry⟩
  | clear =>
      exact ⟨entry, found, .refl entry⟩
  | settle settled outcome =>
      simp only [performRead]
      rcases reads.settle_cases settled outcome with
        settleEq | ⟨old, there, running, settleEq⟩
      · rw [settleEq]
        exact ⟨entry, found, .refl entry⟩
      · rw [settleEq]
        refine follows_set there ⟨?_, fun same => same, fun _ => rfl⟩ found
        intro outcome settled
        exact nomatch running.symm.trans settled
  | note noted ended notedAt =>
      simp only [performRead]
      rcases reads.note_cases reuse noted ended notedAt with
        noteEq | ⟨old, _, remembered, there, -, -, noteEq⟩
      · rw [noteEq]
        exact ⟨entry, found, .refl entry⟩
      · rw [noteEq]
        exact follows_set there ⟨fun _ same => same, fun _ => rfl, nofun⟩
          found

theorem length_perform
    (reads : Reads Value)
    (step : ReadStep Value) :
    reads.loads.length ≤ (performRead reuse reads step).1.loads.length := by
  rcases loads_perform reads step with ⟨same, -⟩ | ⟨new, loads, -, -⟩
  · exact Nat.le_of_eq same.symm
  · rw [loads, List.length_append]
    exact Nat.le_add_right _ _

theorem load_of_began
    {step : ReadStep Value}
    (began : (performRead reuse reads step).2 = some ⟨load, true⟩) :
    load = reads.loads.length ∧
      load < (performRead reuse reads step).1.loads.length := by
  rcases loads_perform reads step with
    ⟨-, none⟩ | ⟨new, loads, -, answers⟩
  · exact absurd began (none load)
  · cases began.symm.trans answers
    rw [loads, List.length_append]
    exact ⟨rfl, Nat.lt_succ_self _⟩

theorem Reads.WellKept.step
    (wellKept : reads.WellKept)
    (step : ReadStep Value) :
    (performRead reuse reads step).1.WellKept := by
  refine ⟨?_, ?_⟩
  · intro id load after
    rcases remembered_perform after with before | began
    · exact Nat.lt_of_lt_of_le (wellKept.known id load before)
        (length_perform reads step)
    · exact (load_of_began began).2
  · intro load after found unnoted
    by_cases isOld : load < reads.loads.length
    · have old : reads.loads[load]? = some reads.loads[load] :=
        List.getElem?_eq_getElem isOld
      obtain ⟨followed, foundAfter, follows⟩ := follows_perform old step
      cases foundAfter.symm.trans found
      rw [follows.unnoted unnoted]
      refine wellKept.reusable load _ old ?_
      cases isNoted : reads.loads[load].noted with
      | false =>
          rfl
      | true =>
          exact nomatch (follows.noted isNoted).symm.trans unnoted
    · obtain ⟨inRange, -⟩ := List.getElem?_eq_some_iff.mp found
      rcases loads_perform reads step with ⟨same, -⟩ | ⟨new, loads, open', -⟩
      · exact absurd (same ▸ inRange) isOld
      · rw [loads, List.length_append] at inRange
        have isNew : load = reads.loads.length :=
          Nat.le_antisymm (Nat.le_of_lt_succ inRange) (Nat.le_of_not_lt isOld)
        subst isNew
        rw [loads, List.getElem?_concat_length] at found
        cases found
        exact open'

/-- A load that runs is the one that is remembered of a key, or its end was
noted. -/
def Reads.Shares
    (reads : Reads Value)
    (id : String)
    (load : ℕ) : Prop :=
  ∃ entry, reads.loads[load]? = some entry ∧
    (entry.noted = true ∨
      reads.remembered id = some load ∧ entry.reusableUntil = ⊤)

theorem Reads.pruned_of_reusable
    {entry : Load Value}
    (isRemembered : reads.remembered id = some load)
    (found : reads.loads[load]? = some entry)
    (reusable : entry.reusableUntil = ⊤)
    (started : ℚ) :
    reads.pruned started id = some load := by
  refine Option.filter_eq_some_iff.mpr ⟨isRemembered, ?_⟩
  refine decide_eq_true ?_
  rintro ⟨other, isOther, expired⟩
  cases found.symm.trans isOther
  rw [reusable, top_le_iff] at expired
  exact WithTop.coe_ne_top expired

theorem Reads.forget_of_ne
    (isRemembered : reads.remembered id = some load)
    (differs : forgotten ≠ load)
    (entry : Load Value) :
    reads.forget forgotten entry id = some load := by
  unfold forget
  split
  · rename_i wasRemembered
    rw [Function.update_of_ne]
    · exact isRemembered
    · rintro rfl
      exact differs (Option.some.inj (wasRemembered.symm.trans isRemembered))
  · exact isRemembered

/-- Every step but a clear keeps a load shared. -/
theorem Reads.Shares.step
    (shares : reads.Shares id load)
    {step : ReadStep Value}
    (notClear : step ≠ .clear) :
    (performRead reuse reads step).1.Shares id load := by
  obtain ⟨entry, found, shared⟩ := shares
  obtain ⟨after, foundAfter, follows⟩ := follows_perform found step
  refine ⟨after, foundAfter, ?_⟩
  cases isNoted : after.noted with
  | true =>
      exact Or.inl rfl
  | false =>
      obtain ⟨isRemembered, reusable⟩ := shared.resolve_left
        fun wasNoted => nomatch (follows.noted wasNoted).symm.trans isNoted
      refine Or.inr ⟨?_, (follows.unnoted isNoted).trans reusable⟩
      cases step with
      | read other now =>
          have left :=
            Reads.pruned_of_reusable isRemembered found reusable now
          simp only [performRead]
          rcases reads.read_cases other now with
            ⟨reused, -, readEq⟩ | ⟨unknown, readEq⟩
          · rw [readEq]
            exact left
          · rw [readEq]
            dsimp only [Prod.map]
            rw [Function.update_of_ne]
            · exact left
            · rintro rfl
              exact nomatch unknown.symm.trans left
      | clear =>
          exact absurd rfl notClear
      | settle settled outcome =>
          simp only [performRead]
          rcases reads.settle_cases settled outcome with
            settleEq | ⟨old, -, -, settleEq⟩
          · rw [settleEq]
            exact isRemembered
          · rw [settleEq]
            exact isRemembered
      | note noted ended notedAt =>
          simp only [performRead] at foundAfter ⊢
          rcases reads.note_cases reuse noted ended notedAt with
            noteEq | ⟨old, _, remembered, there, -, remains, noteEq⟩
          · rw [noteEq]
            exact isRemembered
          · rw [noteEq] at foundAfter ⊢
            have differs : noted ≠ load := by
              rintro rfl
              have inRange := (List.getElem?_eq_some_iff.mp there).1
              rw [List.getElem?_set_self inRange] at foundAfter
              cases foundAfter
              exact nomatch isNoted
            rcases remains with rfl | rfl
            · exact isRemembered
            · exact Reads.forget_of_ne isRemembered differs old

theorem Reads.Shares.run
    (shares : reads.Shares id load)
    {steps : List (ReadStep Value)}
    (meets :
      AllMeet (performRead reuse) (fun _ step => step ≠ .clear) reads steps) :
    (finalState (performRead reuse) reads steps).Shares id load := by
  have kept : ∀ (before : Reads Value) (step : ReadStep Value),
      before.Shares id load → step ≠ .clear →
        (performRead reuse before step).1.Shares id load :=
    fun _ _ before notClear => before.step notClear
  exact invariant_finalState kept shares meets

theorem Reads.Shares.answers
    {entry : Load Value}
    (shares : reads.Shares id load)
    (found : reads.loads[load]? = some entry)
    (unnoted : entry.noted = false)
    (now : ℚ) :
    (performRead reuse reads (.read id now)).2 = some ⟨load, false⟩ := by
  obtain ⟨other, foundOther, shared⟩ := shares
  cases found.symm.trans foundOther
  obtain ⟨isRemembered, reusable⟩ := shared.resolve_left
    fun isNoted => nomatch isNoted.symm.trans unnoted
  have left := Reads.pruned_of_reusable isRemembered found reusable now
  simp only [performRead]
  rcases reads.read_cases id now with
    ⟨reused, isReused, readEq⟩ | ⟨unknown, readEq⟩
  · rw [readEq]
    cases isReused.symm.trans left
    rfl
  · exact nomatch unknown.symm.trans left

theorem Reads.WellKept.shares
    (wellKept : reads.WellKept)
    {now : ℚ}
    (answers : (performRead reuse reads (.read id now)).2 = some answered) :
    (performRead reuse reads (.read id now)).1.Shares id answered.load := by
  simp only [performRead] at answers ⊢
  rcases reads.read_cases id now with
    ⟨reused, found, readEq⟩ | ⟨unknown, readEq⟩
  · rw [readEq] at answers ⊢
    cases answers
    have isRemembered := Reads.remembered_of_pruned found
    have there := wellKept.known id reused isRemembered
    refine ⟨reads.loads[reused], List.getElem?_eq_getElem there, ?_⟩
    cases isNoted : reads.loads[reused].noted with
    | true =>
        exact Or.inl rfl
    | false =>
        exact Or.inr ⟨found, wellKept.reusable reused _
          (List.getElem?_eq_getElem there) isNoted⟩
  · rw [readEq] at answers ⊢
    cases answers
    refine ⟨_, List.getElem?_concat_length, Or.inr ⟨?_, rfl⟩⟩
    exact Function.update_self ..

/-- What is promised of reads that are shared while they run. -/
structure ReadLaws
    (Value : Type)
    (reuse : Reuse) : Prop where
  /-- Loads are numbered as they begin. -/
  numbered : ∀ (steps : List (ReadStep Value)) (earlier middle later :
      List (ReadEntry Value)) (first second : ReadEntry Value)
    (firstLoad secondLoad : ℕ),
    trace (performRead reuse) Reads.empty steps =
        earlier ++ first :: (middle ++ second :: later) →
      first.response = some ⟨firstLoad, true⟩ →
        second.response = some ⟨secondLoad, true⟩ → firstLoad < secondLoad
  /-- A read after a clear answers with a load that began after the clear. -/
  fresh : ∀ (steps : List (ReadStep Value)) (earlier middle later :
      List (ReadEntry Value)) (clearing reading : ReadEntry Value)
    (answered : Answered),
    trace (performRead reuse) Reads.empty steps =
        earlier ++ clearing :: (middle ++ reading :: later) →
      clearing.step = .clear → reading.response = some answered →
        ∃ begun ∈ middle ++ [reading],
          begun.response = some ⟨answered.load, true⟩
  /-- A read answers with the load of an earlier read of the same key, unless
  there was a clear between them or the end of the load was noted. -/
  shared : ∀ (steps : List (ReadStep Value)) (earlier middle later :
      List (ReadEntry Value)) (first second : ReadEntry Value)
    (id : String) (firstNow secondNow : ℚ) (answered : Answered)
    (load : Load Value),
    trace (performRead reuse) Reads.empty steps =
        earlier ++ first :: (middle ++ second :: later) →
      first.step = .read id firstNow → first.response = some answered →
        second.step = .read id secondNow →
          (∀ between ∈ middle, between.step ≠ .clear) →
            second.before.loads[answered.load]? = some load →
              load.noted = false →
                second.response = some ⟨answered.load, false⟩
  /-- What a load came to stays, so that all who share it get the same. -/
  settled : ∀ (first second : List (ReadStep Value)) (load : ℕ)
    (before : Load Value) (outcome : Option Value),
    (finalState (performRead reuse) Reads.empty first).loads[load]? =
        some before →
      before.outcome = some outcome →
        ∃ after,
          (finalState (performRead reuse) Reads.empty
            (first ++ second)).loads[load]? = some after ∧
            after.outcome = some outcome

theorem Reads.wellKept_empty : (Reads.empty : Reads Value).WellKept where
  known := nofun
  reusable := nofun

/-- The laws of reads hold. -/
theorem ReadLaws.hold : ReadLaws Value reuse where
  numbered := by
    intro steps earlier middle later first second firstLoad secondLoad split
      firstBegan secondBegan
    obtain ⟨_, rest, -, -, firstEq, restEq⟩ := around_of_trace_eq split
    obtain ⟨between, _, -, -, secondEq, -⟩ := around_of_trace_eq restEq.symm
    rw [firstEq] at firstBegan
    rw [secondEq] at secondBegan
    have started : firstLoad < first.after.loads.length := by
      rw [firstEq]
      exact (load_of_began firstBegan).2
    have kept : ∀ (before : Reads Value) (step : ReadStep Value),
        firstLoad < before.loads.length →
          firstLoad < (performRead reuse before step).1.loads.length :=
      fun before step bound =>
        Nat.lt_of_lt_of_le bound (length_perform before step)
    rw [(load_of_began secondBegan).1]
    exact invariant_of_kept kept started
  fresh := by
    intro steps earlier middle later clearing reading answered split isClear
      answers
    obtain ⟨_, rest, -, -, clearingEq, restEq⟩ := around_of_trace_eq split
    refine began_of_forgotten ?_ restEq.symm answers
    rw [clearingEq, isClear]
    rfl
  shared := by
    intro steps earlier middle later first second id firstNow secondNow
      answered load split isFirst firstAnswers isSecond noClear found unnoted
    obtain ⟨prior, rest, -, -, firstEq, restEq⟩ := around_of_trace_eq split
    obtain ⟨between, _, -, betweenEq, secondEq, -⟩ :=
      around_of_trace_eq restEq.symm
    rw [firstEq, isFirst] at firstAnswers
    have wellKept : (finalState (performRead reuse) Reads.empty
        prior).WellKept :=
      invariant_of_kept (fun _ step kept => kept.step step)
        Reads.wellKept_empty
    change (performRead reuse (finalState (performRead reuse) Reads.empty
      prior) (.read id firstNow)).2 = some answered at firstAnswers
    have shares : first.after.Shares id answered.load := by
      rw [firstEq, isFirst]
      exact wellKept.shares firstAnswers
    have meets : AllMeet (performRead reuse) (fun _ step => step ≠ .clear)
        first.after between := by
      refine allMeet_of_trace fun happened member => ?_
      rw [betweenEq] at member
      exact noClear happened member
    have still : (finalState (performRead reuse) first.after
        between).Shares id answered.load := shares.run meets
    rw [secondEq] at found ⊢
    rw [isSecond]
    change (performRead reuse (finalState (performRead reuse) first.after
      between) (.read id secondNow)).2 = some ⟨answered.load, false⟩
    exact still.answers found unnoted secondNow
  settled := by
    intro first second load before outcome found isSettled
    rw [finalState_append]
    have kept : ∀ (reads : Reads Value) (step : ReadStep Value),
        (∃ entry, reads.loads[load]? = some entry ∧
          entry.outcome = some outcome) →
        ∃ entry, (performRead reuse reads step).1.loads[load]? = some entry ∧
          entry.outcome = some outcome := by
      rintro reads step ⟨entry, there, known⟩
      obtain ⟨after, foundAfter, follows⟩ := follows_perform there step
      exact ⟨after, foundAfter, follows.outcome outcome known⟩
    exact invariant_of_kept kept ⟨before, found, isSettled⟩

end Frameleaf.Coalesced
