import Mathlib
import PageQuery.Proofs.Predicate.Meaning

/-!
# Why a test fails

A predicate fails on a record because one of its comparisons fails there, on the record or on an
element that it reaches.  Equality fails on numbers only, and only where one of them is a signalling
not-a-number.  A moment is compared with bounds that are moments unless an aware bound beside a naive
value is stuck: read off the local clock it falls outside the calendar, or it is a member of an
enumeration, which is not moved.
-/

namespace PageQuery

/-! ## Equality -/

namespace Value

/-- A value is, or holds, a signalling number. -/
inductive Signals : Value → Prop
  | number {v : Value} {n : Num} (hnumber : v.asNum? = some n)
      (hsignals : n.toDecimal.isSignalling = true) : Signals v
  | listed {xs : List Value} {x : Value} (hmem : x ∈ xs) (hx : Signals x) : Signals (.list xs)
  | paired {xs : List Value} {x : Value} (hmem : x ∈ xs) (hx : Signals x) : Signals (.tuple xs)
  | grouped {xs : List Value} {x : Value} (hmem : x ∈ xs) (hx : Signals x) : Signals (.set xs)
  | mapped {es : List (String × Value)} {e : String × Value} (hmem : e ∈ es) (he : Signals e.2) :
      Signals (.mapping es)
  | held {identity : Identity} {type : String} {es : List (String × Value)} {e : String × Value}
      (hmem : e ∈ es) (he : Signals e.2) : Signals (.record identity type es)
  | member {enumeration name : String} {mixin : Mixin} {v : Value} (hmixin : mixin ≠ .plain)
      (hv : Signals v) : Signals (.member enumeration name mixin v)

theorem Signals.of_bare {v : Value} (h : v.bare.Signals) : v.Signals := by
  cases v with
  | member enumeration name mixin u =>
      cases mixin with
      | plain => exact h
      | _ => exact .member nofun h
  | _ => exact h

theorem error_of_same_number {a b : Num} {e : Fault} (h : a.same b = .error e) :
    e = .invalidOperation ∧ (a.toDecimal.isSignalling = true ∨ b.toDecimal.isSignalling = true) := by
  rw [Num.same] at h
  split at h
  · rename_i hsignals
    exact ⟨(Except.error.inj h).symm, by simpa using hsignals⟩
  · cases h

mutual

/-- Equality fails only if one of the values holds a signalling number. -/
theorem error_of_same {u v : Value} {e : Fault} (h : u.same v = .error e) :
    e = .invalidOperation ∧ (u.Signals ∨ v.Signals) := by
  unfold same at h
  split at h
  · split at h
    · rename_i ys hbare
      split at h
      · obtain ⟨he, hsignals⟩ := error_of_sameItems h
        exact ⟨he, hsignals.imp (fun ⟨x, hx, hs⟩ => .listed hx hs)
          fun ⟨y, hy, hs⟩ => .of_bare (hbare ▸ .listed hy hs)⟩
      · cases h
    · cases h
  · split at h
    · rename_i ys hbare
      obtain ⟨he, hsignals⟩ := error_of_sameItems h
      exact ⟨he, hsignals.imp (fun ⟨x, hx, hs⟩ => .paired hx hs)
        fun ⟨y, hy, hs⟩ => .of_bare (hbare ▸ .paired hy hs)⟩
    · cases h
  · split at h
    · rename_i ys hbare
      split at h
      · obtain ⟨he, hsignals⟩ := error_of_subset h
        exact ⟨he, hsignals.imp (fun ⟨x, hx, hs⟩ => .grouped hx hs)
          fun ⟨y, hy, hs⟩ => .of_bare (hbare ▸ .grouped hy hs)⟩
      · cases h
    · cases h
  · split at h
    · rename_i fs hbare
      split at h
      · obtain ⟨he, hsignals⟩ := error_of_sameEntries h
        exact ⟨he, hsignals.imp (fun ⟨x, hx, hs⟩ => .mapped hx hs)
          fun ⟨y, hy, hs⟩ => .of_bare (hbare ▸ .mapped hy hs)⟩
      · cases h
    · cases h
  · split at h
    · split at h
      · cases h
      · split at h
        · obtain ⟨he, hsignals⟩ := error_of_sameEntries h
          exact ⟨he, hsignals.imp (fun ⟨x, hx, hs⟩ => .held hx hs) fun ⟨y, hy, hs⟩ => .held hy hs⟩
        · cases h
    · cases h
  · obtain ⟨he, hsignals⟩ := error_of_same h
    exact ⟨he, hsignals.imp_left (.member nofun)⟩
  · split at h
    · rename_i a b hu hv
      obtain ⟨he, hsignals⟩ := error_of_same_number h
      exact ⟨he, hsignals.imp (.number ‹_›) (.number ‹_›)⟩
    · cases h

theorem error_of_sameItems {xs ys : List Value} {e : Fault} (h : sameItems xs ys = .error e) :
    e = .invalidOperation ∧ ((∃ x ∈ xs, x.Signals) ∨ ∃ y ∈ ys, y.Signals) := by
  unfold sameItems at h
  split at h
  · cases h
  · rename_i x xs y ys
    split at h
    · obtain ⟨he, hsignals⟩ := error_of_sameItems h
      exact ⟨he, hsignals.imp (fun ⟨z, hz, hs⟩ => ⟨z, List.mem_cons_of_mem x hz, hs⟩)
        fun ⟨z, hz, hs⟩ => ⟨z, List.mem_cons_of_mem y hz, hs⟩⟩
    · obtain ⟨he, hsignals⟩ := error_of_same h
      exact ⟨he, hsignals.imp (fun hs => ⟨x, List.mem_cons_self, hs⟩)
        fun hs => ⟨y, List.mem_cons_self, hs⟩⟩
  · cases h

theorem error_of_sameEntries {es fs : List (String × Value)} {e : Fault}
    (h : sameEntries es fs = .error e) :
    e = .invalidOperation ∧ ((∃ x ∈ es, x.2.Signals) ∨ ∃ y ∈ fs, y.2.Signals) := by
  unfold sameEntries at h
  split at h
  · cases h
  · rename_i key x es
    split at h
    · cases h
    · rename_i y hy
      have hmem : ∃ k, (k, y) ∈ fs := by
        obtain ⟨before, after, rfl, -⟩ := List.lookup_eq_some_iff.mp hy
        exact ⟨key, by simp⟩
      obtain ⟨k, hmem⟩ := hmem
      split at h
      · obtain ⟨he, hsignals⟩ := error_of_sameEntries h
        exact ⟨he, hsignals.imp_left fun ⟨z, hz, hs⟩ => ⟨z, List.mem_cons_of_mem _ hz, hs⟩⟩
      · obtain ⟨he, hsignals⟩ := error_of_same h
        exact ⟨he, hsignals.imp (fun hs => ⟨(key, x), List.mem_cons_self, hs⟩) fun hs => ⟨_, hmem, hs⟩⟩

theorem error_of_subset {xs ys : List Value} {e : Fault} (h : subset xs ys = .error e) :
    e = .invalidOperation ∧ ((∃ x ∈ xs, x.Signals) ∨ ∃ y ∈ ys, y.Signals) := by
  unfold subset at h
  split at h
  · cases h
  · rename_i x xs
    split at h
    · obtain ⟨he, hsignals⟩ := error_of_subset h
      exact ⟨he, hsignals.imp_left fun ⟨z, hz, hs⟩ => ⟨z, List.mem_cons_of_mem x hz, hs⟩⟩
    · obtain ⟨y, hy, h⟩ := exists_of_anyHolds_error h
      obtain ⟨he, hsignals⟩ := error_of_same h
      exact ⟨he, hsignals.imp (fun hs => ⟨x, List.mem_cons_self, hs⟩) fun hs => ⟨y, hy, hs⟩⟩

end

/-! ## Ranges -/

/-- A bound that may be set for a value: none, or one of the value's kind.  Where there is no value,
it is not looked at. -/
inductive Bounds : Value → Value → Prop
  | beside (bound : Value) : Bounds bound .none
  | open (v : Value) : Bounds .none v
  | date {bound v : Value} {d e : Date} (hbound : bound.bare = .date d) (hv : v.bare = .date e) :
      Bounds bound v
  | moment {bound v : Value} {b t : DateTime} (hbound : bound.bare = .datetime b)
      (hv : v.bare = .datetime t) : Bounds bound v

theorem isAware_of_align? {zone : ℤ} {b t shifted : DateTime} (h : b.align? zone t = some shifted) :
    shifted.isAware = t.isAware := by
  rw [DateTime.align?] at h
  cases ht : t.offset with
  | none =>
      cases hb : b.offset with
      | none =>
          simp only [ht, hb, Option.some.injEq] at h
          rw [← h, DateTime.isAware, DateTime.isAware, hb, ht]
      | some offset =>
          simp only [ht, hb] at h
          obtain ⟨moved, -, rfl⟩ := Option.map_eq_some_iff.mp h
          rw [DateTime.isAware, DateTime.isAware, ht]
  | some offset =>
      cases hb : b.offset with
      | none =>
          simp only [ht, hb, Option.some.injEq] at h
          rw [← h, DateTime.isAware, DateTime.isAware, ht]
      | some _ =>
          simp only [ht, hb, Option.some.injEq] at h
          rw [← h, DateTime.isAware, DateTime.isAware, ht, hb]
          rfl

/-- Dates and moments are ordered as such, members of enumerations of them included. -/
theorem less_of_dated {u : Value} (h : (∃ d, u.bare = .date d) ∨ ∃ t, u.bare = .datetime t) (v : Value) :
    u.less v = lessAtom u.bare v.bare := by
  have hnumber : u.asNum? = Option.none := by
    rcases h with ⟨d, h⟩ | ⟨t, h⟩ <;> simp [asNum?, h]
  cases u with
  | date d => simp [less, asNum?, bare]
  | datetime t => simp [less, asNum?, bare]
  | member enumeration name mixin w =>
      cases mixin with
      | other =>
          rcases h with ⟨d, rfl⟩ | ⟨t, rfl⟩
          · simp [less, asNum?, bare]
          · simp [less, asNum?, bare]
      | _ => simp [less, hnumber]
  | _ => simp [bare] at h

theorem less_dates {u v : Value} {d e : Date} (hu : u.bare = .date d) (hv : v.bare = .date e) :
    u.less v = .ok (d.order e == .lt) := by
  rw [less_of_dated (.inl ⟨d, hu⟩), hu, hv]
  rfl

/-- Moments of the same awareness are ordered. -/
theorem exists_less_moments {u v : Value} {a b : DateTime} (hu : u.bare = .datetime a)
    (hv : v.bare = .datetime b) (h : a.isAware = b.isAware) : ∃ verdict, u.less v = .ok verdict := by
  rw [less_of_dated (.inr ⟨a, hu⟩), hu, hv]
  exact ⟨compare a.instant b.instant == .lt, by simp [lessAtom, DateTime.order?, h]⟩

theorem asDateTime?_eq_some {v : Value} {t : DateTime} : v.asDateTime? = some t ↔ v.bare = .datetime t := by
  rw [asDateTime?]
  split <;> simp_all

/-- An aware bound that cannot be brought to a naive value: it has no place on the local clock, or it is
a member of an enumeration, which would have to be made anew there. -/
inductive Stuck (zone : ℤ) (bound v : Value) : Fault → Prop
  | outside {b t : DateTime} (hbound : bound = .datetime b) (hv : v.bare = .datetime t)
      (halign : b.align? zone t = Option.none) : Stuck zone bound v .overflow
  | member {b t : DateTime} (hmember : bound.isMember = true) (hbound : bound.bare = .datetime b)
      (hv : v.bare = .datetime t) (hb : b.isAware = true) (ht : t.isAware = false) :
      Stuck zone bound v (if (b.atOffset? 0).isSome then .badType else .overflow)

/-- What comes of bringing a bound to the awareness of a moment: the bound is stuck, or it becomes a
moment of that awareness. -/
theorem alignBound_moments (zone : ℤ) {v bound : Value} {b t : DateTime} (hbound : bound.bare = .datetime b)
    (hv : v.bare = .datetime t) :
    (∃ aligned shifted, alignBound zone bound v = .ok aligned ∧ aligned.bare = .datetime shifted ∧
      shifted.isAware = t.isAware) ∨
    ∃ f, alignBound zone bound v = .error f ∧ Stuck zone bound v f := by
  simp only [alignBound, asDateTime?_eq_some.mpr hbound, asDateTime?_eq_some.mpr hv]
  cases hmember : bound.isMember with
  | false =>
      rw [if_neg Bool.false_ne_true]
      cases hshifted : b.align? zone t with
      | none =>
          have heq : bound = .datetime b := by
            cases bound with
            | member => cases hmember
            | _ => exact hbound
          exact .inr ⟨_, rfl, .outside heq hv hshifted⟩
      | some shifted => exact .inl ⟨_, shifted, rfl, rfl, isAware_of_align? hshifted⟩
  | true =>
      rw [if_pos rfl, alignMember]
      by_cases hsame : b.isAware = t.isAware
      · rw [if_pos hsame]
        exact .inl ⟨_, b, rfl, hbound, hsame⟩
      · rw [if_neg hsame]
        cases hb : b.isAware with
        | true =>
            have ht : t.isAware = false := by
              rw [hb] at hsame
              exact (Bool.eq_false_or_eq_true _).resolve_left (Ne.symm hsame)
            exact .inr ⟨_, rfl, .member hmember hbound hv hb ht⟩
        | false =>
            rw [if_neg Bool.false_ne_true]
            obtain ⟨offset, ht⟩ : ∃ offset, t.offset = some offset := by
              rw [hb] at hsame
              exact Option.isSome_iff_exists.mp
                ((Bool.eq_false_or_eq_true t.isAware).resolve_right (Ne.symm hsame))
            have hnaive : b.offset = Option.none := by simpa [DateTime.isAware] using hb
            obtain ⟨shifted, hshifted⟩ : ∃ shifted, b.align? zone t = some shifted := by
              simp [DateTime.align?, ht, hnaive]
            rw [hshifted]
            exact .inl ⟨_, shifted, rfl, rfl, isAware_of_align? hshifted⟩

/-- A bound is brought to the awareness of a value and compared with it, unless it is stuck. -/
theorem alignBound_of_bounds (zone : ℤ) {v bound : Value} (hv : v.isNone = false)
    (h : bound.Bounds v) :
    (∃ aligned, alignBound zone bound v = .ok aligned ∧ (aligned.isNone = true ∨
      (∃ b, v.less aligned = .ok b) ∧ ∃ b, aligned.less v = .ok b)) ∨
    ∃ f, alignBound zone bound v = .error f ∧ Stuck zone bound v f := by
  cases h with
  | beside => cases hv
  | «open» => exact .inl ⟨.none, rfl, .inl rfl⟩
  | date hbound hdate =>
      refine .inl ⟨bound, ?_, .inr ⟨⟨_, less_dates hdate hbound⟩, _, less_dates hbound hdate⟩⟩
      simp [alignBound, asDateTime?, hbound]
  | moment hbound hmoment =>
      refine (alignBound_moments zone hbound hmoment).imp_left ?_
      rintro ⟨aligned, shifted, haligned, hshifted, haware⟩
      exact ⟨aligned, haligned, .inr ⟨exists_less_moments hmoment hshifted haware.symm,
        exists_less_moments hshifted hmoment haware⟩⟩

/-- Whether a value lies between bounds of its kind can be told, unless one of them is stuck. -/
theorem inRange_of_bounds (zone : ℤ) {v lower upper : Value} (hlower : lower.Bounds v)
    (hupper : upper.Bounds v) :
    (∃ b, inRange zone v lower upper = .ok b) ∨
      ∃ f, inRange zone v lower upper = .error f ∧ (Stuck zone lower v f ∨ Stuck zone upper v f) := by
  cases hnone : v.isNone with
  | true => exact .inl ⟨false, by rw [inRange, if_pos hnone]⟩
  | false =>
      rw [Predicate.inRange_eq hnone]
      rcases alignBound_of_bounds zone hnone hlower with ⟨low, hlow, hbelow⟩ | ⟨f, hlow, hstuck⟩
      · rcases alignBound_of_bounds zone hnone hupper with ⟨high, hhigh, habove⟩ | ⟨f, hhigh, hstuck⟩
        · left
          rw [hlow, hhigh, Outcome.ok_bind, Outcome.ok_bind]
          obtain ⟨below, hbelow⟩ : ∃ b, (if low.isNone then .ok false else v.less low) = .ok b := by
            cases hopen : low.isNone with
            | true => exact ⟨false, rfl⟩
            | false => exact (hbelow.resolve_left (by simp [hopen])).1
          obtain ⟨above, habove⟩ : ∃ b, (if high.isNone then .ok false else high.less v) = .ok b := by
            cases hopen : high.isNone with
            | true => exact ⟨false, rfl⟩
            | false => exact (habove.resolve_left (by simp [hopen])).2
          rw [hbelow, Outcome.ok_bind]
          cases below with
          | true => exact ⟨false, rfl⟩
          | false => exact ⟨!above, by rw [if_neg Bool.false_ne_true, habove]; rfl⟩
        · exact .inr ⟨f, by rw [hlow, hhigh]; rfl, .inr hstuck⟩
      · exact .inr ⟨f, by rw [hlow]; rfl, .inl hstuck⟩

end Value

/-! ## Predicates -/

namespace Predicate

variable {zone : ℤ}

/-- Testing a predicate on a value may come to another test, on the value or on an element. -/
inductive Reaches : Predicate → Value → Predicate → Value → Prop
  | here (p : Predicate) (v : Value) : Reaches p v p v
  | all {items : List Predicate} {p test : Predicate} {v u : Value} (hp : p ∈ items)
      (htest : Reaches p v test u) : Reaches (.and items) v test u
  | some {items : List Predicate} {p test : Predicate} {v u : Value} (hp : p ∈ items)
      (htest : Reaches p v test u) : Reaches (.or items) v test u
  | any {collection : List String} {inner test : Predicate} {v e u : Value} {elements : List Value}
      (helements : (v.follow collection).elements = .ok elements) (he : e ∈ elements)
      (htest : Reaches inner e test u) : Reaches (.any collection inner) v test u

/-- What makes a comparison fail: a signalling number on either side of an equality, or an aware bound
that is stuck beside a naive moment. -/
inductive Trouble (zone : ℤ) : Predicate → Value → Fault → Prop
  | signals {field : List String} {value v : Value}
      (hsignals : (v.follow field).Signals ∨ value.Signals) :
      Trouble zone (.equals field value) v .invalidOperation
  | stuck {field : List String} {lower upper v : Value} {f : Fault}
      (hstuck : Value.Stuck zone lower (v.follow field) f ∨ Value.Stuck zone upper (v.follow field) f) :
      Trouble zone (.range field lower upper) v f

mutual

/-- A predicate asks of a value only what its kind can answer: it looks for elements where there are
some, and sets bounds of the kind of what lies between them. -/
def Suits : Predicate → Value → Prop
  | .and items, v => SuitsAll items v
  | .or items, v => SuitsAll items v
  | .any collection inner, v =>
    ∃ elements, (v.follow collection).elements = .ok elements ∧ ∀ e ∈ elements, Suits inner e
  | .range field lower upper, v => lower.Bounds (v.follow field) ∧ upper.Bounds (v.follow field)
  | .unknown, _ => False
  | _, _ => True

/-- Several predicates ask of a value only what its kind can answer. -/
def SuitsAll : List Predicate → Value → Prop
  | [], _ => True
  | p :: ps, v => Suits p v ∧ SuitsAll ps v

end

theorem suitsAll_iff {ps : List Predicate} {v : Value} :
    SuitsAll ps v ↔ ∀ p ∈ ps, Suits p v := by
  induction ps with
  | nil => simp [SuitsAll]
  | cons p ps ih => rw [SuitsAll, ih, List.forall_mem_cons]

/-- Joining by either connective suits a value exactly if all parts do. -/
theorem suits_combine {connective : List Predicate → Predicate}
    (hconnective : connective = .and ∨ connective = .or) {ps : List Predicate} {q : Predicate}
    (h : combine connective ps = some q) (v : Value) : Suits q v ↔ ∀ p ∈ ps, Suits p v := by
  match ps with
  | [] => cases h
  | [p] =>
      obtain rfl := Option.some.inj h
      simp
  | _ :: _ :: _ =>
      obtain rfl := Option.some.inj h
      rcases hconnective with rfl | rfl <;> rw [Suits, suitsAll_iff]

/-- A suitable predicate fails only over one of the comparisons that it comes to. -/
theorem trouble_of_error {p : Predicate} {v : Value} (hsuits : Suits p v) {e : Failure}
    (h : p.holds zone v = .error e) :
    ∃ test u f, p.Reaches v test u ∧ Trouble zone test u f ∧ e = .fault f := by
  cases p with
  | and items =>
      rw [holds] at h
      rw [Suits, suitsAll_iff] at hsuits
      obtain ⟨q, hq, h⟩ := exists_of_holdsAll_error h
      obtain ⟨test, u, f, hreach, htrouble, he⟩ := trouble_of_error (hsuits q hq) h
      exact ⟨test, u, f, .all hq hreach, htrouble, he⟩
  | or items =>
      rw [holds] at h
      rw [Suits, suitsAll_iff] at hsuits
      obtain ⟨q, hq, h⟩ := exists_of_holdsSome_error h
      obtain ⟨test, u, f, hreach, htrouble, he⟩ := trouble_of_error (hsuits q hq) h
      exact ⟨test, u, f, .some hq hreach, htrouble, he⟩
  | any collection inner =>
      rw [Suits] at hsuits
      obtain ⟨elements, helements, hsuits⟩ := hsuits
      simp only [holds, helements] at h
      obtain ⟨element, hmem, h⟩ := exists_of_anyHolds_error h
      obtain ⟨test, u, f, hreach, htrouble, he⟩ := trouble_of_error (hsuits element hmem) h
      exact ⟨test, u, f, .any helements hmem hreach, htrouble, he⟩
  | equals field value =>
      rw [holds] at h
      obtain ⟨f, hsame, rfl⟩ := Outcome.mapError_eq_error.mp h
      obtain ⟨rfl, hsignals⟩ := Value.error_of_same hsame
      exact ⟨_, v, _, .here _ v, .signals hsignals, rfl⟩
  | range field lower upper =>
      rw [holds] at h
      obtain ⟨f, hrange, rfl⟩ := Outcome.mapError_eq_error.mp h
      rw [Suits] at hsuits
      rcases Value.inRange_of_bounds zone hsuits.1 hsuits.2 with ⟨b, hb⟩ | ⟨f', hfails, hstuck⟩
      · rw [hb] at hrange
        cases hrange
      · rw [hfails] at hrange
        obtain rfl := Except.error.inj hrange
        exact ⟨_, v, _, .here _ v, .stuck hstuck, rfl⟩
  | contains field text =>
      rw [holds] at h
      cases h
  | absent =>
      rw [holds] at h
      cases h
  | unknown => exact absurd hsuits (by simp [Suits])

end Predicate
end PageQuery
