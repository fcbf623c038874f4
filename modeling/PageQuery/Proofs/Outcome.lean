import Mathlib
import PageQuery.Assembler

/-!
# Outcomes of steps done one after another

A request is answered in steps, any of which may fail.  This module takes sequences of steps apart:
a sequence succeeds exactly when every step does on what the steps before it gave, and its failure
is the failure of its first step that fails.  Two sequences go alike if their steps do.  Traced steps
have the same outcomes as plain ones.
-/

namespace PageQuery

theorem exists_forall₂ {α β : Type} {R : α → β → Prop} {xs : List α} (h : ∀ x ∈ xs, ∃ y, R x y) :
    ∃ ys, List.Forall₂ R xs ys := by
  induction xs with
  | nil => exact ⟨[], .nil⟩
  | cons x xs ih =>
      obtain ⟨hx, hxs⟩ := List.forall_mem_cons.mp h
      obtain ⟨y, hy⟩ := hx
      obtain ⟨ys, hys⟩ := ih hxs
      exact ⟨y :: ys, .cons hy hys⟩

theorem exists_of_forall₂ {α β : Type} {R : α → β → Prop} {xs : List α} {ys : List β}
    (h : List.Forall₂ R xs ys) {y : β} (hy : y ∈ ys) : ∃ x, R x y := by
  induction h with
  | nil => cases hy
  | cons hxy _ ih =>
      rcases List.mem_cons.mp hy with rfl | hy
      · exact ⟨_, hxy⟩
      · exact ih hy

theorem exists_of_mem_forall₂ {α β : Type} {R : α → β → Prop} {xs : List α} {ys : List β}
    (h : List.Forall₂ R xs ys) {x : α} (hx : x ∈ xs) : ∃ y, R x y :=
  exists_of_forall₂ h.flip hx

/-- What is related to the items of a list is related to those of a list that they agree with. -/
theorem forall₂_iff_of_forall₂ {α β γ : Type} {R : α → β → Prop} {S : β → γ → Prop} {T : α → γ → Prop}
    {as : List α} {bs : List β} {cs : List γ} (h : List.Forall₂ R as bs)
    (hsame : ∀ {a b c}, R a b → (S b c ↔ T a c)) : List.Forall₂ S bs cs ↔ List.Forall₂ T as cs := by
  induction h generalizing cs with
  | nil => rw [List.forall₂_nil_left_iff, List.forall₂_nil_left_iff]
  | cons hab _ ih =>
      rw [List.forall₂_cons_left_iff, List.forall₂_cons_left_iff]
      simp only [hsame hab, ih]

namespace Outcome

variable {ε ε' α β : Type}

@[simp]
theorem ok_bind (a : α) (f : α → Except ε β) : (Except.ok a >>= f) = f a := rfl

@[simp]
theorem error_bind (e : ε) (f : α → Except ε β) : (Except.error e >>= f) = .error e := rfl

theorem bind_eq_ok {r : Except ε α} {f : α → Except ε β} {b : β} :
    (r >>= f) = .ok b ↔ ∃ a, r = .ok a ∧ f a = .ok b := by
  cases r <;> simp

theorem bind_eq_error {r : Except ε α} {f : α → Except ε β} {e : ε} :
    (r >>= f) = .error e ↔ r = .error e ∨ ∃ a, r = .ok a ∧ f a = .error e := by
  cases r <;> simp

theorem map_eq_ok {r : Except ε α} {f : α → β} {b : β} :
    r.map f = .ok b ↔ ∃ a, r = .ok a ∧ f a = b := by
  cases r <;> simp [Except.map]

theorem map_eq_error {r : Except ε α} {f : α → β} {e : ε} :
    r.map f = .error e ↔ r = .error e := by
  cases r <;> simp [Except.map]

theorem exists_error_iff {r : Except ε α} : (∃ e, r = .error e) ↔ ∀ a, r ≠ .ok a := by
  cases r <;> simp

theorem mapError_eq_ok {r : Except ε α} {f : ε → ε'} {a : α} :
    r.mapError f = .ok a ↔ r = .ok a := by
  cases r <;> simp [Except.mapError]

theorem mapError_eq_error {r : Except ε α} {f : ε → ε'} {e' : ε'} :
    r.mapError f = .error e' ↔ ∃ e, r = .error e ∧ f e = e' := by
  cases r <;> simp [Except.mapError]

/-- A step done for each item of a list succeeds exactly when it does for every single one. -/
theorem mapM_eq_ok {f : α → Except ε β} {xs : List α} {ys : List β} :
    xs.mapM f = .ok ys ↔ List.Forall₂ (fun x y => f x = .ok y) xs ys := by
  induction xs generalizing ys with
  | nil =>
      rw [List.mapM_nil, List.forall₂_nil_left_iff]
      exact ⟨fun h => (Except.ok.inj h).symm, fun h => h ▸ rfl⟩
  | cons x xs ih =>
      rw [List.mapM_cons, bind_eq_ok, List.forall₂_cons_left_iff]
      constructor
      · rintro ⟨y, hy, h⟩
        obtain ⟨rest, hrest, heq⟩ := bind_eq_ok.mp h
        exact ⟨y, rest, hy, ih.mp hrest, (Except.ok.inj heq).symm⟩
      · rintro ⟨y, rest, hy, hrest, rfl⟩
        exact ⟨y, hy, bind_eq_ok.mpr ⟨rest, ih.mpr hrest, rfl⟩⟩

theorem mem_mapM {f : α → Except ε β} {xs : List α} {ys : List β} (h : xs.mapM f = .ok ys)
    {y : β} : y ∈ ys ↔ ∃ x ∈ xs, f x = .ok y := by
  have hall := mapM_eq_ok.mp h
  clear h
  induction hall with
  | nil => simp
  | cons hx hrest ih => simp [hx, ih, eq_comm]

theorem exists_of_mapM {f : α → Except ε β} {xs : List α} {ys : List β} (h : xs.mapM f = .ok ys)
    {x : α} (hx : x ∈ xs) : ∃ y ∈ ys, f x = .ok y := by
  have hall := mapM_eq_ok.mp h
  clear h
  induction hall with
  | nil => cases hx
  | cons hy hrest ih =>
      rcases List.mem_cons.mp hx with rfl | hx
      · exact ⟨_, List.mem_cons_self, hy⟩
      · obtain ⟨y, hmem, hy⟩ := ih hx
        exact ⟨y, List.mem_cons_of_mem _ hmem, hy⟩

/-- The order in which a step is done for the items of a list is that of its results. -/
theorem exists_mapM_of_perm {f : α → Except ε β} {xs xs' : List α} {ys : List β}
    (hperm : xs.Perm xs') (h : xs.mapM f = .ok ys) :
    ∃ ys', xs'.mapM f = .ok ys' ∧ ys.Perm ys' := by
  obtain ⟨ys', hys, hxs⟩ := List.perm_comp_forall₂ hperm.symm (mapM_eq_ok.mp h)
  exact ⟨ys', mapM_eq_ok.mpr hys, hxs.symm⟩

/-- A step done for each item of a list fails as it fails for the first item that it fails for. -/
theorem mapM_eq_error {f : α → Except ε β} {xs : List α} {e : ε} :
    xs.mapM f = .error e ↔
      ∃ before x after, xs = before ++ x :: after ∧ (∀ y ∈ before, ∃ b, f y = .ok b) ∧
        f x = .error e := by
  induction xs with
  | nil =>
      refine iff_of_false (by rw [List.mapM_nil]; rintro ⟨⟩) ?_
      rintro ⟨before, x, after, hxs, -⟩
      simp at hxs
  | cons x xs ih =>
      rw [List.mapM_cons]
      constructor
      · intro h
        rcases bind_eq_error.mp h with hx | ⟨y, hy, hrest⟩
        · exact ⟨[], x, xs, rfl, by simp, hx⟩
        · rcases bind_eq_error.mp hrest with hrest | ⟨ys, -, hdone⟩
          · obtain ⟨before, x', after, rfl, hbefore, hx'⟩ := ih.mp hrest
            exact ⟨x :: before, x', after, rfl,
              List.forall_mem_cons.mpr ⟨⟨y, hy⟩, hbefore⟩, hx'⟩
          · cases hdone
      · rintro ⟨before, x', after, hxs, hbefore, hx'⟩
        cases before with
        | nil =>
            obtain ⟨rfl, rfl⟩ := List.cons.inj hxs
            rw [hx', error_bind]
        | cons y before =>
            obtain ⟨rfl, rfl⟩ := List.cons.inj hxs
            obtain ⟨⟨b, hb⟩, hbefore⟩ := List.forall_mem_cons.mp hbefore
            rw [hb, ok_bind, ih.mpr ⟨before, x', after, rfl, hbefore, hx'⟩, error_bind]

theorem exists_of_mapM_eq_error {f : α → Except ε β} {xs : List α} {e : ε}
    (h : xs.mapM f = .error e) : ∃ x ∈ xs, f x = .error e := by
  obtain ⟨before, x, after, rfl, -, hx⟩ := mapM_eq_error.mp h
  exact ⟨x, by simp, hx⟩

/-- A step that can fail in one way only fails for a list if it fails for one of the items. -/
theorem mapM_eq_error_of_mem {f : α → Except ε β} {xs : List α} {e : ε} {x : α} (hx : x ∈ xs)
    (he : f x = .error e) (honly : ∀ y e', f y = .error e' → e' = e) : xs.mapM f = .error e := by
  cases h : xs.mapM f with
  | ok ys =>
      obtain ⟨y, -, hy⟩ := exists_of_mapM h hx
      rw [he] at hy
      cases hy
  | error e' =>
      obtain ⟨y, -, hy⟩ := exists_of_mapM_eq_error h
      rw [honly y e' hy]

theorem toOption_eq_some {r : Except ε α} {a : α} : r.toOption = some a ↔ r = .ok a := by
  cases r <;> simp [Except.toOption]

/-! ## Outcomes that go alike -/

/-- An outcome goes as another one: its result is what a function makes of the other result, and its error
is related to the other error. -/
inductive Tracks (related : ε → ε → Prop) (g : α → β) : Except ε α → Except ε β → Prop
  | ok (a : α) : Tracks related g (.ok a) (.ok (g a))
  | error {e e' : ε} (hrelated : related e' e) : Tracks related g (.error e) (.error e')

namespace Tracks

variable {γ δ : Type} {related : ε → ε → Prop} {g : α → β} {r : Except ε α} {r' : Except ε β}

theorem eq_ok (h : Tracks related g r r') {a : α} (ha : r = .ok a) : r' = .ok (g a) := by
  cases h with
  | ok b => rw [Except.ok.inj ha]
  | error => cases ha

theorem exists_error (h : Tracks related g r r') {e : ε} (he : r = .error e) :
    ∃ e', r' = .error e' ∧ related e' e := by
  cases h with
  | ok => cases he
  | error hrelated => exact ⟨_, rfl, Except.error.inj he ▸ hrelated⟩

theorem refl (hrefl : ∀ e, related e e) (r : Except ε α) : Tracks related id r r := by
  cases r with
  | ok a => exact .ok a
  | error e => exact .error (hrefl e)

theorem bind (h : Tracks related g r r') {k : γ → δ} {s : α → Except ε γ} {s' : β → Except ε δ}
    (hs : ∀ a, r = .ok a → Tracks related k (s a) (s' (g a))) : Tracks related k (r >>= s) (r' >>= s') := by
  cases h with
  | ok a => exact hs a rfl
  | error hrelated => exact .error hrelated

theorem mapError (h : Tracks related g r r') {related' : ε' → ε' → Prop} {k : ε → ε'}
    (hk : ∀ e e', related e e' → related' (k e) (k e')) :
    Tracks related' g (r.mapError k) (r'.mapError k) := by
  cases h with
  | ok a => exact .ok a
  | error hrelated => exact .error (hk _ _ hrelated)

theorem map_both (h : Tracks related g r r') {k : α → γ} {k' : β → δ} {l : γ → δ}
    (hk : ∀ a, k' (g a) = l (k a)) : Tracks related l (r.map k) (r'.map k') := by
  cases h with
  | ok a =>
      change Tracks related l (.ok (k a)) (.ok (k' (g a)))
      rw [hk]
      exact .ok _
  | error hrelated => exact .error hrelated

theorem map_right (h : Tracks related g r r') (k : β → γ) : Tracks related (k ∘ g) r (r'.map k) := by
  cases h with
  | ok a => exact .ok a
  | error hrelated => exact .error hrelated

theorem mapM {xs : List γ} {s s' : γ → Except ε α} (h : ∀ a ∈ xs, Tracks related id (s a) (s' a)) :
    Tracks related id (xs.mapM s) (xs.mapM s') := by
  induction xs with
  | nil => exact .ok []
  | cons a xs ih =>
      obtain ⟨ha, hxs⟩ := List.forall_mem_cons.mp h
      rw [List.mapM_cons, List.mapM_cons]
      exact ha.bind fun b _ => (ih hxs).bind fun bs _ => .ok (b :: bs)

end Tracks

theorem bind_ok_eq_map (r : Except ε α) (k : α → β) : (r >>= fun a => .ok (k a)) = r.map k := by
  cases r <;> rfl

/-! ## What an outcome reports -/

def fault? : Except Failure α → Option Fault
  | .error (.fault f) => some f
  | _ => none

theorem fault?_eq_some {r : Except Failure α} {f : Fault} :
    fault? r = some f ↔ r = .error (.fault f) := by
  rcases r with (_ | _ | _ | _ | _ | _ | g) | a <;> simp [fault?]

/-- The error that an outcome reports to whoever made the request. -/
def request? : Except Failure α → Option RequestError
  | .error (.request e) => some e
  | _ => none

theorem request?_eq_some {r : Except Failure α} {e : RequestError} :
    request? r = some e ↔ r = .error (.request e) := by
  rcases r with (_ | _ | _ | _ | _ | _ | _) | a <;> simp [request?]

end Outcome

/-- Errors that are reported as one kind. -/
def RequestError.SameKind (e e' : RequestError) : Prop :=
  e.kind = e'.kind

/-- Two failures of one class: the same one, or errors of a request of one kind. -/
inductive Failure.SameClass : Failure → Failure → Prop
  | refl (e : Failure) : SameClass e e
  | request {e e' : RequestError} (hkind : e.kind = e'.kind) : SameClass (.request e) (.request e')

namespace Traced

variable {α β : Type}

@[simp]
theorem outcome_pure (a : α) : (pure a : Traced α).outcome = .ok a := rfl

@[simp]
theorem outcome_bind (t : Traced α) (f : α → Traced β) :
    (t >>= f).outcome = t.outcome >>= fun a => (f a).outcome := by
  change (t.andThen f).outcome = _
  unfold andThen
  cases t.outcome <;> rfl

@[simp]
theorem outcome_ofExcept (r : Except Failure α) : (ofExcept r).outcome = r := rfl

@[simp]
theorem outcome_note (level : LogLevel) (text : String) : (note level text).outcome = .ok () := rfl

@[simp]
theorem outcome_look (ts : List TypeRef) : (look ts).outcome = .ok () := rfl

end Traced

namespace Source

@[simp]
theorem outcome_attempt {α : Type} (r : Except Fault α) :
    (attempt r).outcome = r.mapError .fault := rfl

/-- A source that never gives up answers every call. -/
theorem outcome_call {s : Source} (hs : s.failsAt = none) (c : Call) :
    (s.call c).outcome = .ok () := by
  simp [call, hs]

end Source

namespace Assembler

@[simp]
theorem outcome_asked {α : Type} (r : Except RequestError α) :
    (asked r).outcome = r.mapError .request := rfl

@[simp]
theorem outcome_noteIf (writable : Bool) (level : LogLevel) (text : String) :
    (noteIf writable level text).outcome =
      if writable then .ok () else .error (.fault .badValue) := by
  cases writable <;> rfl

/-- A predicate as it is handed on.  Where queries are noted in the log, it has to be one that can be
written. -/
def noted (x : Context) (p : Option Predicate) : Except Failure (Option Predicate) :=
  if x.settings.logsQueries && !p.all Predicate.hasLiteral then .error (.fault .badValue) else .ok p

@[simp]
theorem outcome_buildPredicate (x : Context) (root : TypeRef) (items : List FilterItem) :
    (buildPredicate x root items).outcome = Predicate.build x root items >>= noted x := by
  unfold buildPredicate
  cases Predicate.build x root items with
  | error e => simp
  | ok p =>
      cases hlogs : x.settings.logsQueries <;> cases hwritable : p.all Predicate.hasLiteral <;>
        simp [noted, hlogs, hwritable]

theorem noted_eq_ok {x : Context} {p q : Option Predicate} (h : noted x p = .ok q) : q = p := by
  rw [noted] at h
  split at h
  · cases h
  · exact (Except.ok.inj h).symm

/-- What is noted in the log makes no difference to the keys. -/
@[simp]
theorem outcome_buildOrdering (x : Context) (root : TypeRef) (sort : Value) :
    (buildOrdering x root sort).outcome = SortKey.build x root sort := by
  unfold buildOrdering
  cases SortKey.build x root sort <;> simp
  split <;> rfl

end Assembler
end PageQuery
