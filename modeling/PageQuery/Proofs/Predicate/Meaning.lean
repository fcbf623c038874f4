import Mathlib
import PageQuery.Predicate.Build
import PageQuery.Proofs.Outcome
import PageQuery.Proofs.Predicate.Testing

/-!
# What a filter means

A filter is met by a record exactly when each of its items is.  What an item asks for is said here
without the predicate tree: some offered text occurs in the value, the value lies between the two
bounds of a date filter, or the value equals one of those that are offered.  The tree that is built
tests just that, however many items and values there are, so neither the order of the items nor that
of the values of an item matters.
-/

namespace PageQuery

open PageQuery.Text

namespace FilterItem

/-- An item offers the trimmed texts of its values; those that are blank offer nothing. -/
def Offers (item : FilterItem) (text : String) : Prop :=
  ∃ raw, some raw ∈ item.values ∧ isBlank raw = false ∧ text = trim raw

end FilterItem

namespace Predicate

/-- The bound that a slot of a date filter stands for; the absent value stands for none. -/
inductive SlotBound (placeholder : Value) (f : Field) (property : Option String) :
    Option String → Value → Prop
  | missing : SlotBound placeholder f property none .none
  | blank {raw : String} (hblank : isBlank raw = true) :
      SlotBound placeholder f property (some raw) .none
  | placeholder {raw : String} (hsame : (Value.text (trim raw)).same placeholder = .ok true) :
      SlotBound placeholder f property (some raw) .none
  | given {raw : String} {bound : Value} (hblank : isBlank raw = false)
      (hsame : (Value.text (trim raw)).same placeholder ≠ .ok true)
      (hconvert : f.convert (trim raw) property = .ok bound) :
      SlotBound placeholder f property (some raw) bound

def NotBelow (zone : ℤ) (v lower : Value) : Prop :=
  lower.isNone = true ∨ ∃ b, Value.alignBound zone lower v = .ok b ∧ v.less b = .ok false

def NotAbove (zone : ℤ) (v upper : Value) : Prop :=
  upper.isNone = true ∨ ∃ b, Value.alignBound zone upper v = .ok b ∧ b.less v = .ok false

/-- What an item asks of the value of a field. -/
def LeafPasses (x : Context) (f : Field) (item : FilterItem) (v : Value) : Prop :=
  match f.kind with
  | .string =>
    ∃ text, v.asText? = some text ∧ ∃ part, item.Offers part ∧ occursIn (fold part) (fold text)
  | .datetime =>
    v.isNone = false ∧ ∃ low high lower upper, item.values = [low, high] ∧
      SlotBound x.settings.datePlaceholder f item.property low lower ∧
      SlotBound x.settings.datePlaceholder f item.property high upper ∧
      NotBelow x.zone v lower ∧ NotAbove x.zone v upper
  | _ =>
    ∃ text, item.Offers text ∧ ∃ value, f.convert text item.property = .ok value ∧
      v.same value = .ok true

/-- What an item asks of a record.  A path that ends at a collection asks for some element. -/
def ItemHolds (x : Context) (root : TypeRef) (item : FilterItem) (record : Value) : Prop :=
  ∃ path, x.resolve root item.property = .ok path ∧
    if path.isCollection then
      ∃ f field elements, x.resolveElement path = .ok (f, field) ∧
        (record.follow path.field).elements = .ok elements ∧
        ∃ e ∈ elements, LeafPasses x f item (e.follow field)
    else LeafPasses x path.leaf item (record.follow path.field)

/-! ## Slots and ranges -/

theorem mem_usableValues {item : FilterItem} {text : String} :
    text ∈ usableValues item ↔ item.Offers text := by
  unfold usableValues FilterItem.Offers
  rw [List.mem_filterMap]
  constructor
  · rintro ⟨raw, hmem, htext⟩
    cases raw with
    | none => simp [isBlank?] at htext
    | some raw =>
        cases hblank : isBlank raw
        · exact ⟨raw, hmem, hblank, by simpa [isBlank?, hblank] using htext.symm⟩
        · simp [isBlank?, hblank] at htext
  · rintro ⟨raw, hmem, hblank, rfl⟩
    exact ⟨some raw, hmem, by simp [isBlank?, hblank]⟩

theorem slotBound_of_bound {placeholder : Value} {f : Field} {property slot : Option String}
    {b : Value} (h : bound placeholder f property slot = .ok b) :
    SlotBound placeholder f property slot b := by
  unfold bound at h
  cases slot with
  | none =>
      obtain rfl : Value.none = b := by simpa [isOpenSlot] using h
      exact .missing
  | some raw =>
      cases hblank : isBlank raw with
      | true =>
          obtain rfl : Value.none = b := by simpa [isOpenSlot, hblank] using h
          exact .blank hblank
      | false =>
          by_cases hsame : (Value.text (trim raw)).same placeholder = .ok true
          · obtain rfl : Value.none = b := by simpa [isOpenSlot, hsame] using h
            exact .placeholder hsame
          · have hgiven : isOpenSlot placeholder (some raw) = false := by
              simp only [isOpenSlot, hblank, Bool.false_or]
              split
              · rename_i verdict hverdict
                cases verdict
                · rfl
                · exact absurd hverdict hsame
              · rfl
            rw [hgiven, if_neg Bool.false_ne_true] at h
            exact .given hblank hsame h

theorem SlotBound.unique {placeholder : Value} {f : Field} {property slot : Option String}
    {b b' : Value} (h : SlotBound placeholder f property slot b)
    (h' : SlotBound placeholder f property slot b') : b = b' := by
  cases h <;> cases h' <;> simp_all

/-- A moment is brought to the awareness of another one, if it can be shown there. -/
theorem alignBound_moment (zone : ℤ) (bound v : DateTime) :
    Value.alignBound zone (.datetime bound) (.datetime v) =
      (bound.align? zone v).elim (.error .overflow) fun t => .ok (.datetime t) := by
  unfold Value.alignBound
  dsimp only [Value.asDateTime?, Value.bare, Value.isMember]
  cases bound.align? zone v <;> rfl

/-- A moment stays one when its zone is set. -/
theorem isNone_of_alignMember {zone : ℤ} {bound aligned : Value} {b v : DateTime}
    (hbound : bound.isNone = false) (h : Value.alignMember zone bound b v = .ok aligned) :
    aligned.isNone = false := by
  rw [Value.alignMember] at h
  split at h
  · rw [← Except.ok.inj h, hbound]
  · split at h
    · cases h
    · rw [← Except.ok.inj h]
      cases b.align? zone v
      · exact hbound
      · rfl

/-- A bound that is brought to the awareness of a value is there exactly if it was before. -/
theorem isNone_of_alignBound {zone : ℤ} {bound v aligned : Value}
    (h : Value.alignBound zone bound v = .ok aligned) : aligned.isNone = bound.isNone := by
  unfold Value.alignBound at h
  split at h
  · rename_i b _ hb _
    have hnone : bound.isNone = false := by cases bound <;> first | rfl | cases hb
    rw [hnone]
    split at h
    · exact isNone_of_alignMember hnone h
    · split at h
      · rw [← Except.ok.inj h]
        rfl
      · cases h
  · rw [Except.ok.inj h]

theorem inRange_eq {zone : ℤ} {v : Value} (hv : v.isNone = false) (lower upper : Value) :
    Value.inRange zone v lower upper =
      (Value.alignBound zone lower v >>= fun low => Value.alignBound zone upper v >>= fun high =>
        (if low.isNone then .ok false else v.less low) >>= fun below =>
          if below then .ok false
          else (if high.isNone then .ok false else high.less v) >>= fun above => .ok !above) := by
  unfold Value.inRange
  rw [hv, if_neg Bool.false_ne_true]
  refine congrArg _ (funext fun low => congrArg _ (funext fun high => ?_))
  cases hlow : low.isNone <;> cases hhigh : high.isNone <;> rfl

theorem inRange_verdict {zone : ℤ} {v lower upper : Value} {b : Bool}
    (h : Value.inRange zone v lower upper = .ok b) :
    b = true ↔ v.isNone = false ∧ NotBelow zone v lower ∧ NotAbove zone v upper := by
  cases hnone : v.isNone with
  | true =>
      rw [Value.inRange, if_pos hnone, Except.ok.injEq] at h
      simp [← h]
  | false =>
      rw [inRange_eq hnone] at h
      obtain ⟨low, hlow, h⟩ := Outcome.bind_eq_ok.mp h
      obtain ⟨high, hhigh, h⟩ := Outcome.bind_eq_ok.mp h
      obtain ⟨below, hbelow, h⟩ := Outcome.bind_eq_ok.mp h
      have hbelow' : NotBelow zone v lower ↔ below = false := by
        rw [NotBelow, ← isNone_of_alignBound hlow]
        cases hopen : low.isNone with
        | true => simpa [hopen, eq_comm] using hbelow
        | false =>
            rw [hopen, if_neg Bool.false_ne_true] at hbelow
            simp [hlow, hbelow]
      rw [hbelow']
      cases below with
      | true => simpa [eq_comm] using h
      | false =>
          rw [if_neg Bool.false_ne_true] at h
          obtain ⟨above, habove, h⟩ := Outcome.bind_eq_ok.mp h
          have habove' : NotAbove zone v upper ↔ above = false := by
            rw [NotAbove, ← isNone_of_alignBound hhigh]
            cases hopen : high.isNone with
            | true => simpa [hopen, eq_comm] using habove
            | false =>
                rw [hopen, if_neg Bool.false_ne_true] at habove
                simp [hhigh, habove]
          rw [habove', ← Except.ok.inj h]
          simp

/-! ## One item -/

theorem containsText_iff {v : Value} {part : String} :
    v.containsText part = true ↔
      ∃ text, v.asText? = some text ∧ occursIn (fold part) (fold text) = true := by
  unfold Value.containsText
  cases v.asText? <;> simp

/-- The test of a date filter gives the verdict that its item asks for. -/
theorem ofDates_verdict {x : Context} {f : Field} {field : List String} {item : FilterItem}
    {p : Predicate} {v : Value} {b : Bool} (hkind : f.kind = .datetime)
    (hp : ofDates x.settings f field item = .ok p) (h : p.holds x.zone v = .ok b) :
    b = true ↔ LeafPasses x f item (v.follow field) := by
  unfold ofDates at hp
  dsimp only at hp
  split at hp
  · rename_i low high hvalues
    obtain ⟨lower, hlower, hp⟩ := Outcome.bind_eq_ok.mp hp
    obtain ⟨upper, hupper, hp⟩ := Outcome.bind_eq_ok.mp hp
    split at hp
    · cases hp
    · obtain rfl := Except.ok.inj hp
      rw [holds] at h
      rw [inRange_verdict (Outcome.mapError_eq_ok.mp h), LeafPasses, hkind]
      constructor
      · rintro ⟨hnone, hbelow, habove⟩
        exact ⟨hnone, low, high, lower, upper, hvalues, slotBound_of_bound hlower,
          slotBound_of_bound hupper, hbelow, habove⟩
      · rintro ⟨hnone, low', high', lower', upper', hvalues', hlower', hupper', hbelow, habove⟩
        obtain ⟨rfl, rfl⟩ : low = low' ∧ high = high' := by simpa [hvalues] using hvalues'
        obtain rfl := (slotBound_of_bound hlower).unique hlower'
        obtain rfl := (slotBound_of_bound hupper).unique hupper'
        exact ⟨hnone, hbelow, habove⟩
  · cases hp
  · cases hp

/-- The tests of the offered texts give the verdict that their item asks for. -/
theorem comparisons_verdict {x : Context} {f : Field} {field : List String} {item : FilterItem}
    {tests : List Predicate} {v : Value} (hkind : f.kind ≠ .datetime)
    (htests : comparisons f field item = .ok tests) :
    (∃ test ∈ tests, test.holds x.zone v = .ok true) ↔ LeafPasses x f item (v.follow field) := by
  unfold comparisons at htests
  by_cases hstring : f.kind = .string
  · rw [if_pos hstring] at htests
    obtain rfl := Except.ok.inj htests
    rw [LeafPasses, hstring]
    constructor
    · rintro ⟨test, hmem, htest⟩
      obtain ⟨part, hpart, rfl⟩ := List.mem_map.mp hmem
      rw [holds, Except.ok.injEq, containsText_iff] at htest
      obtain ⟨text, htext, hoccurs⟩ := htest
      exact ⟨text, htext, part, mem_usableValues.mp hpart, hoccurs⟩
    · rintro ⟨text, htext, part, hpart, hoccurs⟩
      refine ⟨_, List.mem_map.mpr ⟨part, mem_usableValues.mpr hpart, rfl⟩, ?_⟩
      rw [holds, Except.ok.injEq, containsText_iff]
      exact ⟨text, htext, hoccurs⟩
  · rw [if_neg hstring] at htests
    have hleaf : LeafPasses x f item (v.follow field) ↔
        ∃ text, item.Offers text ∧ ∃ value, f.convert text item.property = .ok value ∧
          (v.follow field).same value = .ok true := by
      unfold LeafPasses
      split
      · exact absurd ‹_› hstring
      · exact absurd ‹_› hkind
      · exact Iff.rfl
    rw [hleaf]
    constructor
    · rintro ⟨test, hmem, htest⟩
      obtain ⟨text, htext, hconvert⟩ := (Outcome.mem_mapM htests).mp hmem
      obtain ⟨value, hvalue, rfl⟩ := Outcome.map_eq_ok.mp hconvert
      rw [holds] at htest
      exact ⟨text, mem_usableValues.mp htext, value, hvalue, Outcome.mapError_eq_ok.mp htest⟩
    · rintro ⟨text, htext, value, hvalue, hsame⟩
      refine ⟨.equals field value, (Outcome.mem_mapM htests).mpr ⟨text, mem_usableValues.mpr htext,
        Outcome.map_eq_ok.mpr ⟨value, hvalue, rfl⟩⟩, ?_⟩
      rw [holds, hsame]
      rfl

theorem ofLeaf_verdict {x : Context} {f : Field} {field : List String} {item : FilterItem}
    {p : Predicate} {v : Value} {b : Bool} (hp : ofLeaf x.settings f field item = .ok p)
    (h : p.holds x.zone v = .ok b) : b = true ↔ LeafPasses x f item (v.follow field) := by
  unfold ofLeaf at hp
  split at hp
  · rename_i hkind
    exact ofDates_verdict hkind hp h
  · cases hp
  · cases hp
  · rename_i hdate _ _
    obtain ⟨tests, htests, hp⟩ := Outcome.bind_eq_ok.mp hp
    split at hp
    · cases hp
    · rename_i q hcombine
      obtain rfl := Except.ok.inj hp
      rw [holds_of_combine_or hcombine] at h
      rw [holdsSome_verdict h]
      exact comparisons_verdict hdate htests

/-- The predicate of an item gives the verdict that the item asks for. -/
theorem ofItem_verdict {x : Context} {root : TypeRef} {item : FilterItem} {p : Predicate}
    {record : Value} {b : Bool} (hp : ofItem x root item = .ok p)
    (h : p.holds x.zone record = .ok b) : b = true ↔ ItemHolds x root item record := by
  unfold ofItem at hp
  split at hp
  · cases hp
  · obtain ⟨path, hpath, hp⟩ := Outcome.bind_eq_ok.mp hp
    have hunique (record : Value) : ItemHolds x root item record ↔
        if path.isCollection then
          ∃ f field elements, x.resolveElement path = .ok (f, field) ∧
            (record.follow path.field).elements = .ok elements ∧
            ∃ e ∈ elements, LeafPasses x f item (e.follow field)
        else LeafPasses x path.leaf item (record.follow path.field) := by
      simp [ItemHolds, hpath]
    rw [hunique]
    split at hp
    · rename_i hcollection
      rw [if_pos hcollection]
      obtain ⟨⟨f, field⟩, helement, hp⟩ := Outcome.bind_eq_ok.mp hp
      obtain ⟨inner, hinner, hp⟩ := Outcome.bind_eq_ok.mp hp
      obtain rfl := Except.ok.inj hp
      rw [holds] at h
      split at h
      · rename_i elements helements
        have hleaf {e : Value} {verdict : Bool} (he : inner.holds x.zone e = .ok verdict) :=
          ofLeaf_verdict (Outcome.mapError_eq_ok.mp hinner) he
        cases b with
        | true =>
            obtain ⟨e, hmem, he⟩ := exists_of_anyHolds h
            exact iff_of_true rfl
              ⟨f, field, elements, helement, helements, e, hmem, (hleaf he).mp rfl⟩
        | false =>
            have hall := forall_of_anyHolds h
            refine iff_of_false Bool.false_ne_true ?_
            rintro ⟨f', field', elements', helement', helements', e, hmem, hpasses⟩
            obtain ⟨rfl, rfl⟩ : f = f' ∧ field = field' := by simpa [helement] using helement'
            obtain rfl : elements = elements' := by simpa [helements] using helements'
            exact Bool.false_ne_true ((hleaf (hall e hmem)).mpr hpasses)
      · cases h
    · rename_i hcollection
      rw [if_neg hcollection]
      exact ofLeaf_verdict (Outcome.mapError_eq_ok.mp hp) h

/-! ## A whole filter -/

/-- A filter is met exactly when all its items are, whenever it has a verdict at all. -/
theorem build_verdict {x : Context} {root : TypeRef} {items : List FilterItem}
    {p : Option Predicate} {record : Value} {b : Bool} (hp : build x root items = .ok p)
    (h : holds? x.zone p record = .ok b) :
    b = true ↔ ∀ item ∈ items, ItemHolds x root item record := by
  obtain ⟨ps, hps, rfl⟩ := Outcome.map_eq_ok.mp hp
  rw [holds?_combine_and] at h
  cases b with
  | true =>
      refine iff_of_true rfl fun item hitem => ?_
      obtain ⟨q, hmem, hq⟩ := Outcome.exists_of_mapM hps hitem
      exact (ofItem_verdict hq (holdsAll_eq_true.mp h q hmem)).mp rfl
  | false =>
      obtain ⟨q, hmem, hfalse⟩ := exists_of_holdsAll h
      obtain ⟨item, hitem, hq⟩ := (Outcome.mem_mapM hps).mp hmem
      refine iff_of_false Bool.false_ne_true fun hall => ?_
      exact Bool.false_ne_true ((ofItem_verdict hq hfalse).mpr (hall item hitem))

/-! ## Reordering -/

/-- The field that an item is about: the one that its path leads to, or the one that it addresses in
the elements of a collection. -/
def Concerns (x : Context) (root : TypeRef) (item : FilterItem) (f : Field) : Prop :=
  ∃ path, x.resolve root item.property = .ok path ∧
    if path.isCollection then ∃ field, x.resolveElement path = .ok (f, field)
    else f = path.leaf

/-- Two items are the same, or they have the same values in another order and are not about dates,
whose slots have a meaning each. -/
def SameItem (x : Context) (root : TypeRef) (item item' : FilterItem) : Prop :=
  item = item' ∨
    item.property = item'.property ∧ item.values.Perm item'.values ∧
      ∀ f, Concerns x root item f → f.kind ≠ .datetime

/-- Two filters differ in the order of their items and of the values of items only. -/
def Reordered (x : Context) (root : TypeRef) (items items' : List FilterItem) : Prop :=
  ∃ middle, items.Perm middle ∧ List.Forall₂ (SameItem x root) middle items'

/-- No comparison of a predicate that may be absent fails on a value. -/
def Quiet? (zone : ℤ) (p : Option Predicate) (v : Value) : Prop :=
  ∀ q ∈ p, Quiet zone q v

theorem holds?_of_quiet {zone : ℤ} {p : Option Predicate} {v : Value} (h : Quiet? zone p v) :
    ∃ b, holds? zone p v = .ok b := by
  cases p with
  | none => exact ⟨true, rfl⟩
  | some p => exact holds_of_quiet (h p rfl)

theorem quiet?_combine_and {zone : ℤ} {ps : List Predicate} {v : Value} :
    Quiet? zone (combine .and ps) v ↔ ∀ p ∈ ps, Quiet zone p v := by
  cases hcombine : combine .and ps with
  | none =>
      have hnil : ps = [] := by
        match ps with
        | [] => rfl
        | [_] => cases hcombine
        | _ :: _ :: _ => cases hcombine
      simp [Quiet?, hnil]
  | some q => simp [Quiet?, quiet_combine_and hcombine]

theorem comparisons_perm {f : Field} {field : List String} {item item' : FilterItem}
    {tests : List Predicate} (hproperty : item.property = item'.property)
    (hvalues : item.values.Perm item'.values) (h : comparisons f field item = .ok tests) :
    ∃ tests', comparisons f field item' = .ok tests' ∧ tests.Perm tests' := by
  have husable : (usableValues item).Perm (usableValues item') := hvalues.filterMap _
  unfold comparisons at h ⊢
  by_cases hstring : f.kind = .string
  · rw [if_pos hstring] at h ⊢
    rw [← Except.ok.inj h]
    exact ⟨_, rfl, husable.map _⟩
  · rw [if_neg hstring] at h ⊢
    rw [← hproperty]
    exact Outcome.exists_mapM_of_perm husable h

theorem ofLeaf_perm {x : Context} {f : Field} {field : List String} {item item' : FilterItem}
    {p : Predicate} (hkind : f.kind ≠ .datetime) (hproperty : item.property = item'.property)
    (hvalues : item.values.Perm item'.values) (h : ofLeaf x.settings f field item = .ok p) :
    ∃ p', ofLeaf x.settings f field item' = .ok p' ∧
      ∀ v, Quiet x.zone p v → Quiet x.zone p' v := by
  unfold ofLeaf at h ⊢
  split at h
  · exact absurd ‹_› hkind
  · cases h
  · cases h
  · obtain ⟨tests, htests, h⟩ := Outcome.bind_eq_ok.mp h
    obtain ⟨tests', htests', hperm⟩ := comparisons_perm hproperty hvalues htests
    split at h
    · cases h
    · rename_i q hcombine
      obtain rfl := Except.ok.inj h
      have hsome : ∃ q', combine .or tests' = some q' := by
        match tests' with
        | [] =>
            rw [hperm.eq_nil] at hcombine
            cases hcombine
        | [q'] => exact ⟨q', rfl⟩
        | _ :: _ :: _ => exact ⟨_, rfl⟩
      obtain ⟨q', hcombine'⟩ := hsome
      refine ⟨q', ?_, fun v hq => ?_⟩
      · simp only [htests', Outcome.ok_bind, hcombine']
      · rw [quiet_combine_or hcombine'] 
        intro test htest
        exact (quiet_combine_or hcombine v).mp hq test (hperm.mem_iff.mpr htest)

theorem ofItem_same {x : Context} {root : TypeRef} {item item' : FilterItem} {p : Predicate}
    (hsame : SameItem x root item item') (h : ofItem x root item = .ok p) :
    ∃ p', ofItem x root item' = .ok p' ∧ ∀ v, Quiet x.zone p v → Quiet x.zone p' v := by
  rcases hsame with rfl | ⟨hproperty, hvalues, hkind⟩
  · exact ⟨p, h, fun _ hp => hp⟩
  · unfold ofItem at h ⊢
    have hempty : item'.values.isEmpty = item.values.isEmpty := hvalues.symm.isEmpty_eq
    rw [hempty, ← hproperty]
    split at h
    · cases h
    · rename_i hgiven
      rw [if_neg hgiven]
      obtain ⟨path, hpath, h⟩ := Outcome.bind_eq_ok.mp h
      rw [hpath, Outcome.ok_bind]
      split at h
      · rename_i hcollection
        obtain ⟨⟨f, field⟩, helement, h⟩ := Outcome.bind_eq_ok.mp h
        obtain ⟨inner, hinner, h⟩ := Outcome.bind_eq_ok.mp h
        obtain rfl := Except.ok.inj h
        have hkind' : f.kind ≠ .datetime :=
          hkind f ⟨path, hpath, by rw [if_pos hcollection]; exact ⟨field, helement⟩⟩
        obtain ⟨inner', hinner', hquiet⟩ :=
          ofLeaf_perm hkind' hproperty hvalues (Outcome.mapError_eq_ok.mp hinner)
        refine ⟨.any path.field inner', ?_, fun v hv => ?_⟩
        · rw [if_pos hcollection, helement, Outcome.ok_bind]
          simp only [hinner']
          rfl
        · rw [Quiet] at hv ⊢
          obtain ⟨elements, helements, hall⟩ := hv
          exact ⟨elements, helements, fun e he => hquiet e (hall e he)⟩
      · rename_i hcollection
        have hkind' : path.leaf.kind ≠ .datetime :=
          hkind path.leaf ⟨path, hpath, by rw [if_neg hcollection]⟩
        obtain ⟨p', hp', hquiet⟩ :=
          ofLeaf_perm hkind' hproperty hvalues (Outcome.mapError_eq_ok.mp h)
        refine ⟨p', ?_, hquiet⟩
        rw [if_neg hcollection, hp']
        rfl

theorem itemHolds_same {x : Context} {root : TypeRef} {item item' : FilterItem} {record : Value}
    (hsame : SameItem x root item item') :
    ItemHolds x root item' record ↔ ItemHolds x root item record := by
  rcases hsame with rfl | ⟨hproperty, hvalues, hkind⟩
  · exact Iff.rfl
  · have hoffers (text : String) : item'.Offers text ↔ item.Offers text := by
      simp only [FilterItem.Offers, hvalues.mem_iff]
    have hleaf (f : Field) (hf : f.kind ≠ .datetime) (v : Value) :
        LeafPasses x f item' v ↔ LeafPasses x f item v := by
      unfold LeafPasses
      split
      · simp only [hoffers]
      · exact absurd ‹_› hf
      · simp only [hoffers, hproperty]
    unfold ItemHolds
    rw [← hproperty]
    refine exists_congr fun path => and_congr_right fun hpath => ?_
    by_cases hcollection : path.isCollection = true
    · simp only [if_pos hcollection]
      refine exists_congr fun f => exists_congr fun field => exists_congr fun elements =>
        and_congr_right fun helement => and_congr_right fun _ => exists_congr fun e =>
        and_congr_right fun _ => hleaf f (hkind f ⟨path, hpath, ?_⟩) _
      rw [if_pos hcollection]
      exact ⟨field, helement⟩
    · simp only [if_neg hcollection]
      refine hleaf path.leaf (hkind path.leaf ⟨path, hpath, ?_⟩) _
      rw [if_neg hcollection]

theorem mapM_ofItem_same {x : Context} {root : TypeRef} {items items' : List FilterItem}
    {ps : List Predicate} (hsame : List.Forall₂ (SameItem x root) items items')
    (h : items.mapM (ofItem x root) = .ok ps) :
    ∃ ps', items'.mapM (ofItem x root) = .ok ps' ∧
      ∀ v, (∀ p ∈ ps, Quiet x.zone p v) → ∀ p ∈ ps', Quiet x.zone p v := by
  induction hsame generalizing ps with
  | nil =>
      rw [← Except.ok.inj h]
      exact ⟨[], rfl, fun v hv => hv⟩
  | cons hitem hrest ih =>
      rw [List.mapM_cons] at h
      obtain ⟨p, hp, h⟩ := Outcome.bind_eq_ok.mp h
      obtain ⟨rest, hrest, h⟩ := Outcome.bind_eq_ok.mp h
      obtain rfl := Except.ok.inj h
      obtain ⟨p', hp', hquiet⟩ := ofItem_same hitem hp
      obtain ⟨rest', hrest', hall⟩ := ih hrest
      refine ⟨p' :: rest', ?_, fun v hv => ?_⟩
      · rw [List.mapM_cons, hp', Outcome.ok_bind, hrest', Outcome.ok_bind]
        rfl
      · obtain ⟨hfirst, hothers⟩ := List.forall_mem_cons.mp hv
        exact List.forall_mem_cons.mpr ⟨hquiet v hfirst, hall v hothers⟩

/-- A reordered filter asks for the same. -/
theorem itemHolds_reordered {x : Context} {root : TypeRef} {items items' : List FilterItem}
    {record : Value} (h : Reordered x root items items') :
    (∀ item ∈ items', ItemHolds x root item record) ↔
      ∀ item ∈ items, ItemHolds x root item record := by
  obtain ⟨middle, hperm, hsame⟩ := h
  simp only [hperm.mem_iff]
  clear hperm
  induction hsame with
  | nil => exact Iff.rfl
  | cons hitem hrest ih => rw [List.forall_mem_cons, List.forall_mem_cons, itemHolds_same hitem, ih]

theorem build_reordered {x : Context} {root : TypeRef} {items items' : List FilterItem}
    {p : Option Predicate} (hreordered : Reordered x root items items')
    (hp : build x root items = .ok p) :
    ∃ p', build x root items' = .ok p' ∧ ∀ v, Quiet? x.zone p v → Quiet? x.zone p' v := by
  obtain ⟨middle, hperm, hsame⟩ := hreordered
  obtain ⟨ps, hps, rfl⟩ := Outcome.map_eq_ok.mp hp
  obtain ⟨ms, hms, hms'⟩ := Outcome.exists_mapM_of_perm hperm hps
  obtain ⟨ps', hps', hquiet⟩ := mapM_ofItem_same hsame hms
  refine ⟨combine .and ps', Outcome.map_eq_ok.mpr ⟨ps', hps', rfl⟩, fun v hv => ?_⟩
  rw [quiet?_combine_and] at hv ⊢
  exact hquiet v fun q hq => hv q (hms'.mem_iff.mpr hq)

/-- The meaning of a filter.  Wherever the predicate that is built from a filter has a verdict, it
holds exactly if the record meets every item; it has one wherever no comparison fails; and reordering
the items, or the values of items that are not about dates, gives a predicate that holds on the same
records. -/
theorem holds_build_iff {x : Context} {root : TypeRef} {items : List FilterItem}
    {p : Option Predicate} (hp : build x root items = .ok p) :
    (∀ record b, holds? x.zone p record = .ok b →
      (b = true ↔ ∀ item ∈ items, ItemHolds x root item record)) ∧
    (∀ record, Quiet? x.zone p record → ∃ b, holds? x.zone p record = .ok b) ∧
    ∀ items', Reordered x root items items' →
      ∃ p', build x root items' = .ok p' ∧
        ∀ record, Quiet? x.zone p record → holds? x.zone p' record = holds? x.zone p record := by
  refine ⟨fun record b => build_verdict hp, fun record => holds?_of_quiet, ?_⟩
  intro items' hreordered
  obtain ⟨p', hp', hquiet'⟩ := build_reordered hreordered hp
  refine ⟨p', hp', fun record hquiet => ?_⟩
  obtain ⟨b, hb⟩ := holds?_of_quiet hquiet
  obtain ⟨b', hb'⟩ := holds?_of_quiet (hquiet' record hquiet)
  have hsame : b' = true ↔ b = true := by
    rw [build_verdict hp' hb', build_verdict hp hb]
    exact itemHolds_reordered hreordered
  rw [hb, hb', Bool.eq_iff_iff.mpr hsame]

def tags : Field where
  name := "tags"
  kind := .collection
  type := some (.type (.builtin "str"))

/-- A registry with the table of books, which have a title and tags. -/
def shelf : Context where
  catalogue := {}
  registry :=
    { tables := [(.record "Book", .ofFields [{ name := "title", kind := .string }, tags])] }

/-- A book that meets an item about its title and one about its tags, in either order. -/
theorem holds_build_shelf :
    ∃ p, build shelf (.record "Book")
        [⟨some "tags", [some " ", some "SF"]⟩, ⟨some "title", [some "du"]⟩] = .ok p ∧
      holds? shelf.zone p (.record (.own 1) "Book"
        [("title", .text "Dune"), ("tags", .list [.text "epic", .text "sf"])]) = .ok true := by
  have hbuild : build shelf (.record "Book")
      [⟨some "title", [some "du"]⟩, ⟨some "tags", [some "SF", some " "]⟩] =
      .ok (some (.and [.contains ["title"] "du", .any ["tags"] (.contains [] "SF")])) := rfl
  obtain ⟨-, -, hreorder⟩ := holds_build_iff hbuild
  have hvalues : SameItem shelf (.record "Book") ⟨some "tags", [some "SF", some " "]⟩
      ⟨some "tags", [some " ", some "SF"]⟩ := by
    refine .inr ⟨rfl, .swap _ _ _, ?_⟩
    rintro f ⟨path, hpath, hf⟩
    have htags : shelf.resolve (.record "Book") (some "tags") =
        .ok ⟨some "tags", [tags], "tags", none⟩ := rfl
    obtain rfl := Except.ok.inj (htags.symm.trans hpath)
    obtain ⟨field, hfield⟩ := hf
    have helement : shelf.resolveElement ⟨some "tags", [tags], "tags", none⟩ =
        .ok ({ tags with kind := .string, parser := some .text }, []) := rfl
    obtain ⟨rfl, -⟩ := Prod.mk.inj (Except.ok.inj (helement.symm.trans hfield))
    exact FieldKind.noConfusion
  obtain ⟨p, hp, hsame⟩ := hreorder
    [⟨some "tags", [some " ", some "SF"]⟩, ⟨some "title", [some "du"]⟩]
    ⟨_, .swap _ _ _, .cons hvalues (.cons (.inl rfl) .nil)⟩
  refine ⟨p, hp, ?_⟩
  rw [hsame]
  · rfl
  · simp only [Quiet?, Option.mem_def, Option.some.injEq, forall_eq', Quiet, QuietAll,
      implies_true, and_true, true_and]
    exact ⟨_, rfl⟩

end Predicate
end PageQuery
