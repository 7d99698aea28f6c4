import ServerTech.Brain.Memory

namespace ServerTech
namespace Brain

open Program

variable {ι σ : Type} [DecidableEq ι]

/-!
# How a repeater counts

A `Repeater` keeps the number of its updates in its entry of the context.  The
entry is read before the child is updated and written behind it, unless the
update is the last one of a round: then the status is `Success`, and the `reset`
at the end of the update erases the entry.  So the entry after some updates is
their number modulo the limit, with no entry for zero.

Nothing is asked of the child.  Of its `reset`, which comes behind the erasing,
it is used that it leaves the entry of the repeater alone.
-/

/-! ## Frames -/

namespace Node

variable {setting : Setting ι σ}

theorem framed_names (node : Node ι) (name : ι) (inside : name ∈ node.ids) :
    Compositional (fun {α} program => @Framed ι (Option Int) σ α node.names program) name :=
  compositional_framed inside

/-- `reset` changes no entry outside the subtree. -/
theorem reset_framed (own : setting.Own) (status : Status) (node : Node ι) :
    Framed node.names (node.reset setting status) := by
  refine reset_closed (@framed_names ι σ _ node) ?_
  intro name inside
  refine Framed.mono (own.reset name status) ?_
  rintro other rfl
  exact inside

end Node

/-! ## One update -/

/-- The count of the update that finds the entry. -/
def repeaterCount (limit entry : Int) : Int :=
  if 0 < limit then int32 entry + 1 else int32 entry

theorem int32_of_range {value : Int} (nonneg : 0 ≤ value) (small : value < 2 ^ 31) :
    int32 value = value := by
  unfold int32
  apply Int.bmod_eq_of_le <;> omega

section Step

variable {setting : Setting ι σ} {fuel : Nat} {self : ι} {child : Node ι} {limit : Int}
  {w final : World ι σ} {status : Status} {log : Log ι}

/-- What an update of a repeater does: it updates the child once, and ends a
round or writes the count. -/
theorem repeater_updated (own : setting.Own) (absent : self ∉ child.ids)
    (updated : (Node.decorator self (.repeater limit) child).update setting fuel w =
      some ((status, log), final)) :
    log.calls.map Log.node = [child.self] ∧
      ((0 < limit ∧ repeaterCount limit ((w.cells self).getD 0) = limit ∧
          status = .success ∧ final.cells self = none) ∨
        (¬ (0 < limit ∧ repeaterCount limit ((w.cells self).getD 0) = limit) ∧
          status = .running ∧
          final.cells self =
            if repeaterCount limit ((w.cells self).getD 0) = -1 then none
            else some (repeaterCount limit ((w.cells self).getD 0)))) := by
  cases Node.update_updated updated with
  | inner executed picks reset =>
      rename_i calls middle
      change repeater limit self (child.update setting fuel) w = some ((status, calls), middle) at executed
      rcases bind_eq_some executed with ⟨entry, _, found, after⟩
      cases (Context.get_eq_some found).2
      cases (Context.get_eq_some found).1
      rcases bind_eq_some after with ⟨⟨s, call⟩, ticked, childUpdated, after⟩
      have named := (Node.update_log childUpdated).1
      change (if 0 < limit ∧ repeaterCount limit ((w.cells self).getD 0) = limit then _ else _ :
        Body ι σ) ticked = _ at after
      by_cases last : 0 < limit ∧ repeaterCount limit ((w.cells self).getD 0) = limit
      · rw [if_pos last] at after
        cases after
        rw [Node.resetUnlessRunning, if_pos (by decide), Node.reset] at reset
        rcases bind_eq_some reset with ⟨_, erased, first, rest⟩
        refine ⟨congrArg (fun name => [name]) named, .inl ⟨last.1, last.2, rfl, ?_⟩⟩
        rw [Node.reset_framed own _ child rest self absent, Node.set_cells self first, if_pos rfl]
      · rw [if_neg last] at after
        rcases bind_eq_some after with ⟨_, _, stored, ended⟩
        cases ended
        cases reset
        refine ⟨congrArg (fun name => [name]) named, .inr ⟨last, rfl, ?_⟩⟩
        rw [Context.set_eq_some stored]
        exact Function.update_self _ _ _

end Step

/-! ## Runs of updates -/

/-- The entry of a repeater after some updates: their number modulo the limit,
and no entry for zero. -/
def repeaterEntry (limit updates : Nat) : Option Int :=
  if limit ∣ updates then none else some (updates % limit : Nat)

theorem repeaterEntry_getD (limit updates : Nat) :
    (repeaterEntry limit updates).getD 0 = (updates % limit : Nat) := by
  unfold repeaterEntry
  split
  · rename_i whole
    rw [Nat.dvd_iff_mod_eq_zero.mp whole]
    rfl
  · rfl

/-- A round ends with every update whose number the limit divides. -/
theorem succ_mod_eq_iff {limit : Nat} (positive : 0 < limit) (updates : Nat) :
    updates % limit + 1 = limit <-> limit ∣ updates + 1 := by
  cases limit with
  | zero => cases positive
  | succ limit =>
      rw [Nat.dvd_iff_mod_eq_zero, Nat.succ_mod_succ_eq_zero_iff]
      omega

section Runs

variable {setting : Setting ι σ} {fuel : Nat} {self : ι} {child : Node ι} {limit : Nat}
  {w final : World ι σ} {status : Status} {log : Log ι} {changes : List (σ -> σ)}
  {results : List (Status × Log ι)}

/-- One update of a repeater with a limit. -/
theorem repeater_counts (own : setting.Own) (absent : self ∉ child.ids) (positive : 0 < limit)
    (representable : limit < 2 ^ 31) {updates : Nat} (entry : w.cells self = repeaterEntry limit updates)
    (updated : (Node.decorator self (.repeater limit) child).update setting fuel w =
      some ((status, log), final)) :
    status = (if limit ∣ updates + 1 then .success else .running) ∧
      final.cells self = repeaterEntry limit (updates + 1) := by
  have below : updates % limit < limit := Nat.mod_lt _ positive
  have count : repeaterCount limit ((w.cells self).getD 0) = (updates % limit + 1 : Nat) := by
    rw [entry, repeaterEntry_getD, repeaterCount, if_pos (by omega), int32_of_range (by omega) (by omega)]
    rfl
  have last : repeaterCount limit ((w.cells self).getD 0) = limit <-> limit ∣ updates + 1 := by
    rw [count, ← succ_mod_eq_iff positive]
    omega
  rw [repeaterEntry]
  rcases (repeater_updated own absent updated).2 with ⟨_, ends, rfl, erased⟩ | ⟨goesOn, rfl, stored⟩
  · rw [if_pos (last.mp ends), if_pos (last.mp ends)]
    exact ⟨rfl, erased⟩
  · have open_ : ¬ limit ∣ updates + 1 := by
      intro whole
      exact goesOn ⟨by omega, last.mpr whole⟩
    have next : (updates + 1) % limit = updates % limit + 1 := by
      have short : updates % limit + 1 < limit := by
        have other := mt (succ_mod_eq_iff positive updates).mp open_
        omega
      rw [← Nat.mod_add_mod, Nat.mod_eq_of_lt short]
    rw [if_neg open_, if_neg open_, stored, count, if_neg (by omega), next]
    exact ⟨rfl, rfl⟩

/-- What a run of updates does, from any place in a round. -/
theorem run_counts (own : setting.Own) (absent : self ∉ child.ids) (positive : 0 < limit)
    (representable : limit < 2 ^ 31) {updates : Nat} (entry : w.cells self = repeaterEntry limit updates)
    (ran : (Node.decorator self (.repeater limit) child).run setting fuel changes w =
      some (results, final)) :
    (forall k result, results[k]? = some result ->
      result.1 = if limit ∣ updates + k + 1 then .success else .running) ∧
      final.cells self = repeaterEntry limit (updates + changes.length) := by
  induction changes generalizing w results updates with
  | nil =>
      cases ran
      exact ⟨nofun, entry⟩
  | cons change changes inductionHypothesis =>
      rcases bind_eq_some ran with ⟨_, changed, outside, after⟩
      rcases bind_eq_some after with ⟨⟨status, log⟩, middle, updated, after⟩
      rcases bind_eq_some after with ⟨others, _, rest, ended⟩
      cases ended
      cases outside
      have first := repeater_counts (w := { w with outside := change w.outside }) own absent positive
        representable entry updated
      have later := inductionHypothesis first.2 rest
      refine ⟨?_, ?_⟩
      · intro k result listed
        cases k with
        | zero =>
            cases listed
            exact first.1
        | succ k =>
            rw [later.1 k result listed, Nat.add_assoc updates, Nat.add_comm 1 k, ← Nat.add_assoc]
      · rw [later.2, List.length_cons, Nat.add_assoc, Nat.add_comm 1]

/-- The first updates of a run are a run. -/
theorem run_take {node : Node ι} (ran : node.run setting fuel changes w = some (results, final)) (k : Nat) :
    Exists fun middle => node.run setting fuel (changes.take k) w = some (results.take k, middle) := by
  induction changes generalizing w results k with
  | nil =>
      cases ran
      rw [List.take_nil, List.take_nil]
      exact ⟨_, rfl⟩
  | cons change changes inductionHypothesis =>
      cases k with
      | zero => exact ⟨_, rfl⟩
      | succ k =>
          rcases bind_eq_some ran with ⟨_, changed, outside, after⟩
          rcases bind_eq_some after with ⟨result, middle, updated, after⟩
          rcases bind_eq_some after with ⟨others, _, rest, ended⟩
          cases ended
          rcases inductionHypothesis rest k with ⟨last, earlier⟩
          refine ⟨last, ?_⟩
          rw [List.take_succ_cons, List.take_succ_cons, Node.run, bind_apply, outside, Option.bind_some,
            bind_apply, updated, Option.bind_some, bind_apply, earlier]
          rfl

end Runs

section Rounds

variable {setting : Setting ι σ} {self : ι} {child : Node ι} {limit : Int} {w : World ι σ}

/-- The updates of a repeater return if `update` and `reset` of its child do. -/
theorem repeater_returns {fuel : Nat} (updates : Returns (child.update setting fuel))
    (resets : forall status, Returns (child.reset setting status)) (changes : List (σ -> σ)) :
    Returns ((Node.decorator self (.repeater limit) child).run setting fuel changes) := by
  refine Node.run_returns ?_ changes
  have closed := @compositional_returns ι (Option Int) σ _ self
  refine closed.bind (Context.get_closed closed) fun entry => ?_
  refine closed.bind (repeater_closed closed limit updates) ?_
  rintro ⟨status, calls⟩
  refine closed.bind ?_ fun _ => closed.pure _
  unfold Node.resetUnlessRunning
  split
  · exact closed.bind (Context.set_closed closed _) fun _ => resets status
  · exact closed.pure _

/-- A repeater counts exactly, whatever its child does: every update updates the
child once, every update whose number the limit divides returns `Success` and
leaves no entry, and every other one returns `Running`.  The updates return if
`update` and `reset` of the child do. -/
theorem run_repeats (own : setting.Own) (fuel : Nat) (absent : self ∉ child.ids)
    (representable : limit < 2 ^ 31) (fresh : w.cells self = none) (changes : List (σ -> σ)) :
    (forall (results : List (Status × Log ι)) (final : World ι σ),
      (Node.decorator self (.repeater limit) child).run setting fuel changes w = some (results, final) ->
      (forall (k : Nat) (result : Status × Log ι), results[k]? = some result ->
        result.2.calls.map Log.node = [child.self] ∧
        result.1 = if 0 < limit ∧ limit ∣ (k + 1 : Nat) then .success else .running) ∧
      forall k, k ≤ changes.length -> Exists fun middle =>
        (Node.decorator self (.repeater limit) child).run setting fuel (changes.take k) w =
          some (results.take k, middle) ∧
        (0 < limit -> limit ∣ k -> middle.cells self = none)) ∧
    (Returns (child.update setting fuel) -> (forall status, Returns (child.reset setting status)) ->
      Returns ((Node.decorator self (.repeater limit) child).run setting fuel changes)) := by
  refine ⟨?_, fun updates resets => repeater_returns updates resets changes⟩
  intro results final ran
  have once : forall (k : Nat) (result : Status × Log ι), results[k]? = some result ->
      result.2.calls.map Log.node = [child.self] := by
    intro k result listed
    rcases Node.run_updated ran (List.mem_of_getElem? listed) with ⟨before, after, updated⟩
    exact (repeater_updated own absent updated).1
  by_cases positive : 0 < limit
  · rcases Int.eq_ofNat_of_zero_le (Int.le_of_lt positive) with ⟨limit, rfl⟩
    have bounds : 0 < limit ∧ limit < 2 ^ 31 := by omega
    have entry : w.cells self = repeaterEntry limit 0 := by
      rw [fresh, repeaterEntry, if_pos (Nat.dvd_zero limit)]
    refine ⟨?_, ?_⟩
    · intro k result listed
      refine ⟨once k result listed, ?_⟩
      rw [(run_counts own absent bounds.1 bounds.2 entry ran).1 k result listed, Nat.zero_add]
      simp only [positive, Int.natCast_dvd_natCast, true_and]
    · intro k short
      rcases run_take ran k with ⟨middle, earlier⟩
      refine ⟨middle, earlier, ?_⟩
      intro _ whole
      rw [(run_counts own absent bounds.1 bounds.2 entry earlier).2, List.length_take,
        Nat.min_eq_left short, Nat.zero_add, repeaterEntry, if_pos (Int.natCast_dvd_natCast.mp whole)]
  · refine ⟨?_, ?_⟩
    · intro k result listed
      refine ⟨once k result listed, ?_⟩
      rw [if_neg fun last => positive last.1]
      rcases Node.run_updated ran (List.mem_of_getElem? listed) with ⟨before, after, updated⟩
      rcases (repeater_updated own absent updated).2 with ends | goesOn
      · exact absurd ends.1 positive
      · exact goesOn.2.1
    · intro k _
      rcases run_take ran k with ⟨middle, earlier⟩
      exact ⟨middle, earlier, fun some_ => absurd some_ positive⟩

end Rounds

/-- Two rounds of a repeater with the limit 2 above a leaf that fails. -/
theorem run_repeats_twice :
    Exists fun results => Exists fun final : World Nat Unit =>
      (Node.decorator 0 (.repeater 2) (.leaf 1)).run (.scripted fun _ _ => .failure) 0 [id, id, id, id]
        (World.new ()) = some (results, final) ∧
      results.map Prod.fst = [.running, .success, .running, .success] ∧
      forall k, k ≤ 4 -> Exists fun middle =>
        (Node.decorator 0 (.repeater 2) (.leaf 1)).run (.scripted fun _ _ => .failure) 0
          ([id, id, id, id].take k) (World.new ()) = some (results.take k, middle) ∧
        ((0 : Int) < 2 -> (2 : Int) ∣ k -> middle.cells 0 = none) := by
  have facts : ((Node.decorator 0 (.repeater 2) (.leaf 1)).run (.scripted fun _ (_ : Unit) => .failure) 0
      [id, id, id, id] (World.new ())).map (fun result => result.1.map Prod.fst) =
      some [.running, .success, .running, .success] := by
    decide +kernel
  rcases Option.map_eq_some_iff.mp facts with ⟨⟨results, final⟩, ran, statuses⟩
  have own : (Setting.scripted fun (_ : Nat) (_ : Unit) => Status.failure).Own :=
    (Node.scripted_local _).own
  have absent : 0 ∉ (Node.leaf 1).ids := by decide
  have small : (2 : Int) < 2 ^ 31 := by decide
  have rounds := (run_repeats own 0 absent small rfl [id, id, id, id]).1 results final ran
  exact ⟨results, final, ran, statuses, rounds.2⟩

end Brain
end ServerTech
