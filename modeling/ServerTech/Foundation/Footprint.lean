import Mathlib.Data.Set.Basic
import Mathlib.Logic.Function.Basic

namespace ServerTech

universe u

/-!
# Programs on a store and their footprints

A store has a cell for every name and something outside the cells.  A program
reads and changes both, and may fail to return.  A program is confined to a set
of names when it changes no other cell and when its result, its changes outside
and its changes in the set do not depend on any other cell.

Confinement composes: the rules below follow the way programs are written, and
a larger set is always allowed.  Two runs of a confined program from stores that
agree on the set can then be compared without looking into the program.
-/

/-- A cell for every name, and what is outside the cells. -/
structure Store (ι β σ : Type u) where
  cells : ι -> β
  outside : σ

/-- Programs on a store.  There is no result when a program does not return. -/
abbrev Program (ι β σ : Type u) :=
  StateT (Store ι β σ) Option

namespace Program

variable {ι β σ α γ : Type u}

/-- The content of a cell. -/
def read (name : ι) : Program ι β σ β :=
  fun s => some (s.cells name, s)

/-- Replace the content of a cell. -/
def write [DecidableEq ι] (name : ι) (value : β) : Program ι β σ PUnit :=
  fun s => some (PUnit.unit, { s with cells := Function.update s.cells name value })

/-- A step outside the cells. -/
def external (step : σ -> α × σ) : Program ι β σ α :=
  fun s => some ((step s.outside).1, { s with outside := (step s.outside).2 })

theorem bind_apply (first : Program ι β σ α) (second : α -> Program ι β σ γ) (s : Store ι β σ) :
    (first >>= second) s = (first s).bind fun result => second result.1 result.2 :=
  rfl

/-- A program that returns went through a state between its two parts. -/
theorem bind_eq_some {first : Program ι β σ α} {second : α -> Program ι β σ γ}
    {s final : Store ι β σ} {c : γ} (returned : (first >>= second) s = some (c, final)) :
    Exists fun a => Exists fun middle => first s = some (a, middle) ∧
      second a middle = some (c, final) := by
  rcases Option.bind_eq_some_iff.mp returned with ⟨⟨a, middle⟩, before, after⟩
  exact ⟨a, middle, before, after⟩

theorem pure_eq_some {a c : α} {s final : Store ι β σ}
    (returned : (pure a : Program ι β σ α) s = some (c, final)) : c = a ∧ final = s := by
  cases returned
  exact ⟨rfl, rfl⟩

/-! ## Agreement and confinement -/

/-- Two stores are the same outside their cells and in the cells of the set. -/
structure Agree (names : Set ι) (s t : Store ι β σ) : Prop where
  outside : s.outside = t.outside
  cells : forall name, name ∈ names -> s.cells name = t.cells name

theorem Agree.refl (names : Set ι) (s : Store ι β σ) : Agree names s s :=
  ⟨rfl, fun _ _ => rfl⟩

theorem Agree.symm {names : Set ι} {s t : Store ι β σ} (agree : Agree names s t) :
    Agree names t s :=
  ⟨agree.outside.symm, fun name member => (agree.cells name member).symm⟩

theorem Agree.mono {small large : Set ι} {s t : Store ι β σ} (agree : Agree large s t)
    (within : small ⊆ large) : Agree small s t :=
  ⟨agree.outside, fun name member => agree.cells name (within member)⟩

/-- Cells outside the set do not matter. -/
theorem Agree.update [DecidableEq ι] {names : Set ι} {s t : Store ι β σ} {name other : ι}
    (agree : Agree names s t) (outside : name ∉ names) (outside' : other ∉ names)
    (value value' : β) :
    Agree names { s with cells := Function.update s.cells name value }
      { t with cells := Function.update t.cells other value' } := by
  refine ⟨agree.outside, ?_⟩
  intro member inside
  have apart : member ≠ name := by
    rintro rfl
    exact outside inside
  have apart' : member ≠ other := by
    rintro rfl
    exact outside' inside
  change Function.update s.cells name value member = Function.update t.cells other value' member
  rw [Function.update_of_ne apart, Function.update_of_ne apart']
  exact agree.cells member inside

/-- The program changes no cell outside the set. -/
def Framed (names : Set ι) (program : Program ι β σ α) : Prop :=
  forall {s final : Store ι β σ} {a : α}, program s = some (a, final) ->
    forall name, name ∉ names -> final.cells name = s.cells name

namespace Framed

variable {names : Set ι} {program : Program ι β σ α}

theorem mono (framed : Framed names program) {large : Set ι} (within : names ⊆ large) :
    Framed large program :=
  fun returned name outside => framed returned name fun member => outside (within member)

theorem pure (names : Set ι) (a : α) : Framed names (pure a : Program ι β σ α) := by
  intro s final c returned name _
  rw [(pure_eq_some returned).2]

theorem failure (names : Set ι) : Framed names (failure : Program ι β σ α) :=
  fun returned => nomatch returned

theorem bind (first : Framed names program) {rest : α -> Program ι β σ γ}
    (second : forall a, Framed names (rest a)) : Framed names (program >>= rest) := by
  intro s final c returned name outside
  rcases bind_eq_some returned with ⟨a, middle, before, after⟩
  rw [second a after name outside, first before name outside]

theorem read (names : Set ι) (name : ι) : Framed names (read name : Program ι β σ β) := by
  intro s final a returned other _
  cases returned
  rfl

theorem write [DecidableEq ι] {name : ι} (member : name ∈ names) (value : β) :
    Framed names (write name value : Program ι β σ PUnit) := by
  intro s final a returned other outside
  cases returned
  apply Function.update_of_ne
  rintro rfl
  exact outside member

theorem external (names : Set ι) (step : σ -> α × σ) :
    Framed names (external step : Program ι β σ α) := by
  intro s final a returned name _
  cases returned
  rfl

end Framed

/-- The program changes no cell outside the set, and depends on none. -/
structure Confined (names : Set ι) (program : Program ι β σ α) : Prop where
  frame : Framed names program
  respects : forall {s t final : Store ι β σ} {a : α}, Agree names s t ->
    program s = some (a, final) ->
    Exists fun final' => program t = some (a, final') ∧ Agree names final final'

namespace Confined

variable {names : Set ι} {program : Program ι β σ α}

/-- A program that does not return from one store returns from no store that
agrees with it. -/
theorem eq_none (confined : Confined names program) {s t : Store ι β σ} (agree : Agree names s t)
    (stops : program s = none) : program t = none := by
  cases returned : program t with
  | none => rfl
  | some result =>
      rcases confined.respects agree.symm returned with ⟨final, same, _⟩
      rw [stops] at same
      cases same

theorem mono (confined : Confined names program) {large : Set ι} (within : names ⊆ large) :
    Confined large program where
  frame := Framed.mono confined.frame within
  respects := by
    intro s t final a agree returned
    rcases confined.respects (agree.mono within) returned with ⟨final', same, agree'⟩
    refine ⟨final', same, agree'.outside, ?_⟩
    intro name member
    by_cases own : name ∈ names
    · exact agree'.cells name own
    · rw [confined.frame returned name own, confined.frame same name own]
      exact agree.cells name member

theorem pure (names : Set ι) (a : α) : Confined names (pure a : Program ι β σ α) where
  frame := Framed.pure names a
  respects := by
    intro s t final c agree returned
    rcases pure_eq_some returned with ⟨rfl, rfl⟩
    exact ⟨t, rfl, agree⟩

theorem failure (names : Set ι) : Confined names (failure : Program ι β σ α) where
  frame := Framed.failure names
  respects := fun _ returned => nomatch returned

theorem bind (first : Confined names program) {rest : α -> Program ι β σ γ}
    (second : forall a, Confined names (rest a)) : Confined names (program >>= rest) where
  frame := Framed.bind first.frame fun a => (second a).frame
  respects := by
    intro s t final c agree returned
    rcases bind_eq_some returned with ⟨a, middle, before, after⟩
    rcases first.respects agree before with ⟨middle', before', agreeMiddle⟩
    rcases (second a).respects agreeMiddle after with ⟨final', after', agreeFinal⟩
    refine ⟨final', ?_, agreeFinal⟩
    rw [bind_apply, before']
    exact after'

theorem read {name : ι} (member : name ∈ names) : Confined names (read name : Program ι β σ β) where
  frame := Framed.read names name
  respects := by
    intro s t final a agree returned
    cases returned
    refine ⟨t, ?_, agree⟩
    rw [Program.read, agree.cells name member]

theorem write [DecidableEq ι] {name : ι} (member : name ∈ names) (value : β) :
    Confined names (write name value : Program ι β σ PUnit) where
  frame := Framed.write member value
  respects := by
    intro s t final a agree returned
    cases returned
    refine ⟨_, rfl, agree.outside, ?_⟩
    intro other inside
    by_cases same : other = name
    · subst same
      change Function.update s.cells other value other = Function.update t.cells other value other
      rw [Function.update_self, Function.update_self]
    · change Function.update s.cells name value other = Function.update t.cells name value other
      rw [Function.update_of_ne same, Function.update_of_ne same]
      exact agree.cells other inside

theorem external (names : Set ι) (step : σ -> α × σ) :
    Confined names (external step : Program ι β σ α) where
  frame := Framed.external names step
  respects := by
    intro s t final a agree returned
    cases returned
    refine ⟨{ t with outside := (step t.outside).2 }, ?_,
      congrArg (fun outside => (step outside).2) agree.outside, agree.cells⟩
    rw [Program.external, agree.outside]

end Confined

/-! ## Comparing two programs -/

section Relational

variable {α' γ' : Type u} {s t : Store ι β σ}
  {R : α × Store ι β σ -> α' × Store ι β σ -> Prop} {S : γ × Store ι β σ -> γ' × Store ι β σ -> Prop}

/-- Programs that start alike and go on alike. -/
theorem rel_bind {left : Program ι β σ α} {right : Program ι β σ α'}
    {leftRest : α -> Program ι β σ γ} {rightRest : α' -> Program ι β σ γ'}
    (first : Option.Rel R (left s) (right t))
    (second : forall a middle a' middle', R (a, middle) (a', middle') ->
      Option.Rel S (leftRest a middle) (rightRest a' middle')) :
    Option.Rel S ((left >>= leftRest) s) ((right >>= rightRest) t) := by
  rw [bind_apply, bind_apply]
  revert first
  generalize left s = before
  generalize right t = before'
  intro first
  cases first with
  | none => exact .none
  | some related => exact second _ _ _ _ related

theorem rel_map {X Y X' Y' : Type u} {R : X -> X' -> Prop} {S : Y -> Y' -> Prop} {f : X -> Y}
    {g : X' -> Y'} {left : Option X} {right : Option X'} (related : Option.Rel R left right)
    (mapped : forall a b, R a b -> S (f a) (g b)) : Option.Rel S (left.map f) (right.map g) := by
  cases related with
  | none => exact .none
  | some pair => exact .some (mapped _ _ pair)

theorem map_eq_of_rel {X X' Y : Type u} {f : X -> Y} {g : X' -> Y} {left : Option X}
    {right : Option X'} (related : Option.Rel (fun a b => f a = g b) left right) :
    left.map f = right.map g := by
  cases related with
  | none => rfl
  | some same => exact congrArg some same

end Relational

/-! ## Programs that return -/

/-- The program returns from every store. -/
def Returns (program : Program ι β σ α) : Prop :=
  forall s, Exists fun result => program s = some result

namespace Returns

theorem pure (a : α) : Returns (pure a : Program ι β σ α) :=
  fun s => ⟨(a, s), rfl⟩

theorem bind {program : Program ι β σ α} {rest : α -> Program ι β σ γ} (first : Returns program)
    (second : forall a, Returns (rest a)) : Returns (program >>= rest) := by
  intro s
  rcases first s with ⟨result, returned⟩
  rw [bind_apply, returned]
  exact second result.1 result.2

theorem read (name : ι) : Returns (Program.read name : Program ι β σ β) :=
  fun s => ⟨(s.cells name, s), rfl⟩

theorem write [DecidableEq ι] (name : ι) (value : β) :
    Returns (Program.write name value : Program ι β σ PUnit) :=
  fun _ => ⟨_, rfl⟩

theorem external (step : σ -> α × σ) : Returns (Program.external step : Program ι β σ α) :=
  fun _ => ⟨_, rfl⟩

end Returns

/-! ## Properties that follow the way programs are written -/

/-- A property of programs that is kept when programs use one cell, take steps
outside the cells and are put together. -/
structure Compositional (P : forall {α : Type u}, Program ι β σ α -> Prop) [DecidableEq ι]
    (name : ι) : Prop where
  pure : forall {α : Type u} (a : α), P (pure a)
  bind : forall {α γ : Type u} {program : Program ι β σ α} {rest : α -> Program ι β σ γ},
    P program -> (forall a, P (rest a)) -> P (program >>= rest)
  read : P (Program.read name)
  write : forall value, P (Program.write name value)
  external : forall {α : Type u} (step : σ -> α × σ), P (Program.external step)

theorem compositional_confined [DecidableEq ι] {names : Set ι} {name : ι} (member : name ∈ names) :
    Compositional (fun {α} program => @Confined ι β σ α names program) name where
  pure := fun a => .pure names a
  bind := fun first second => first.bind second
  read := .read member
  write := .write member
  external := .external names

theorem compositional_framed [DecidableEq ι] {names : Set ι} {name : ι} (member : name ∈ names) :
    Compositional (fun {α} program => @Framed ι β σ α names program) name where
  pure := fun a => Framed.pure names a
  bind := fun first second => Framed.bind first second
  read := Framed.read names name
  write := Framed.write member
  external := Framed.external names

theorem compositional_returns [DecidableEq ι] (name : ι) :
    Compositional (fun {α} program => @Returns ι β σ α program) name where
  pure := .pure
  bind := fun first second => first.bind second
  read := .read name
  write := .write name
  external := .external

end Program
end ServerTech
