import Mathlib
import PageQuery.Proofs.Paging.Pages
import PageQuery.Proofs.Request.Rendering
import PageQuery.Proofs.Schema.Introspection
import PageQuery.Proofs.Store.Searches

/-!
# Pages of a store and of records in memory

A request by plain fields that is sorted by the keys of rows gets the same page from the rows of a store
and from their mirrors in memory: the query that the request makes selects the rows on whose mirrors its
predicate holds, both arrangements are in order, and the keys leave one such arrangement only.  A store
refuses two kinds of requests that records in memory answer: conditions that are nested too deeply, and
bounds of a slice that it cannot keep.  Queries as they are modelled here do not know of three more limits
that stores have, so requests are asked to respect these.
-/

namespace PageQuery

namespace Assembler

section Stored

variable (x : Context) (p : Parameters) (q : Query)

theorem outcome_restrict_stored (predicate : Option Predicate) :
    ((Source.ofQuery q).restrict x predicate).outcome =
      (q.narrowed predicate).map Source.ofQuery := by
  cases predicate with
  | none => simp [Source.restrict, Source.outcome_call, Source.ofQuery, Query.narrowed, Except.map]
  | some predicate =>
      simp only [Source.restrict, Traced.outcome_bind, Source.outcome_call, Source.ofQuery,
        Outcome.ok_bind, Traced.outcome_ofExcept, Source.outcome_attempt, Traced.outcome_pure,
        Query.narrowed]
      cases Condition.ofPredicate q.store q.model [] predicate with
      | error e => rfl
      | ok condition =>
          simp only [Outcome.ok_bind]
          cases q.restrict condition <;> rfl

theorem outcome_order_stored (keys : List SortKey) :
    ((Source.ofQuery q).order keys).outcome = (q.ordered keys).map Source.ofQuery := by
  cases keys with
  | nil => simp [Source.order, Source.outcome_call, Source.ofQuery, Query.ordered, Except.map]
  | cons key keys =>
      simp only [Source.order, Traced.outcome_bind, Source.outcome_call, Source.ofQuery,
        Outcome.ok_bind, List.isEmpty_cons, Bool.false_eq_true, if_false, Source.outcome_attempt,
        Traced.outcome_pure, Query.ordered]
      cases q.orderBy (key :: keys) <;> rfl

theorem outcome_applyFilter_stored :
    (applyFilter x p (Source.ofQuery q)).outcome = (do
      let predicate ← predicateOf x (some (.model q.model)) p
      (q.narrowed predicate).map Source.ofQuery) := by
  have hroot : recordType (.ofQuery q) = recordType (.ofRecords [] (some (.model q.model))) := rfl
  simp only [applyFilter, Traced.outcome_bind, Traced.outcome_ofExcept, predicateOf]
  cases p.hasFilter with
  | error e => rfl
  | ok given =>
      cases given
      · simp [Query.narrowed, Except.map]
      · simp [hroot, outcome_restrict_stored]

theorem outcome_applySort_stored :
    (applySort x p (Source.ofQuery q)).outcome = (do
      let keys ← keysOf x (some (.model q.model)) p
      (q.ordered keys).map Source.ofQuery) := by
  have hroot : recordType (.ofQuery q) = recordType (.ofRecords [] (some (.model q.model))) := rfl
  simp only [applySort, Traced.outcome_bind, Traced.outcome_ofExcept, keysOf]
  cases p.hasSort with
  | error e => rfl
  | ok given =>
      cases given
      · simp [Query.ordered, Except.map]
      · simp [hroot, outcome_order_stored]

theorem model_narrowed {predicate : Option Predicate} {narrowed : Query}
    (h : q.narrowed predicate = .ok narrowed) : narrowed.model = q.model := by
  cases predicate with
  | none => rw [← Except.ok.inj h]
  | some predicate =>
      obtain ⟨condition, -, h⟩ := Outcome.bind_eq_ok.mp h
      obtain ⟨f, -, rfl⟩ := Outcome.map_eq_ok.mp (Outcome.mapError_eq_ok.mp h)
      rfl

/-- A page with some of the records that there are, as it is handed out. -/
def handed (p : Parameters) (data : List Value) (elements : Int) : Except Failure Page := do
  let page ← (Page.of data p.page p.size (.ofInt elements)).mapError .fault
  handedOut page

def queryOf (x : Context) (p : Parameters) (q : Query) : Except Failure Query := do
  let predicate ← predicateOf x (some (.model q.model)) p
  let narrowed ← q.narrowed predicate
  let keys ← keysOf x (some (.model q.model)) p
  narrowed.ordered keys

theorem queryOf_eq {q : Query} {x : Context} {p : Parameters} {predicate : Option Predicate}
    {keys : List SortKey} (hpredicate : predicateOf x (some (.model q.model)) p = .ok predicate)
    (hkeys : keysOf x (some (.model q.model)) p = .ok keys) :
    queryOf x p q = q.asking predicate keys := by
  rw [queryOf, hpredicate, hkeys]
  rfl

/-- A source with a query is prepared to the query that the request makes of it. -/
theorem outcome_prepare_stored {r : PageRequest} (hp : r.parameters = some p)
    (hdirectives : r.directives = .none) :
    (prepare x (.source (.ofQuery q)) r true).outcome =
      (queryOf x p q).map fun asked => (p, Source.ofQuery asked) := by
  have hload : ((Source.ofQuery q).load .none).outcome = .ok (Source.ofQuery q) := by
    simp only [Source.load, Traced.outcome_bind, Source.outcome_call, Source.ofQuery, Query.load,
      Directives.isNone, if_true, Outcome.ok_bind, Source.outcome_attempt, Traced.outcome_pure]
    rfl
  simp only [prepare, checkArguments, hp, hdirectives, Source.ofOffer, Traced.outcome_bind,
    outcome_asked, Except.mapError, Outcome.ok_bind, hload, outcome_applyFilter_stored, if_true,
    Traced.outcome_pure, queryOf]
  cases predicateOf x (some (.model q.model)) p with
  | error e => rfl
  | ok predicate =>
      cases hnarrowed : q.narrowed predicate with
      | error e => simp [hnarrowed, Except.map]
      | ok narrowed =>
          simp only [hnarrowed, Outcome.ok_bind, Except.map, outcome_applySort_stored,
            model_narrowed q hnarrowed]
          cases keysOf x (some (.model q.model)) p with
          | error e => rfl
          | ok keys =>
              simp only [Outcome.ok_bind]
              cases narrowed.ordered keys <;> rfl

/-- A page of a query is a slice of the query that its request makes of it. -/
theorem outcome_page_stored {r : PageRequest} (hp : r.parameters = some p)
    (hdirectives : r.directives = .none) :
    (page x (.source (.ofQuery q)) r).outcome = (do
      let asked ← queryOf x p q
      let elements ← asked.count.mapError .fault
      let data ← (asked.slice p.offset (p.offset + p.size.number)).mapError .fault
      handed p data elements) := by
  rw [page, Traced.outcome_bind, outcome_prepare_stored x p q hp hdirectives]
  cases queryOf x p q with
  | error e => rfl
  | ok asked =>
      simp only [Except.map, Outcome.ok_bind, Source.count, Source.slice, Source.ofQuery,
        Traced.outcome_bind, Source.outcome_call, Traced.outcome_pure, Source.outcome_attempt,
        outcome_noteIf]
      cases asked.count with
      | error f => rfl
      | ok elements =>
          cases asked.slice p.offset (p.offset + p.size.number) with
          | error f => rfl
          | ok data =>
              simp only [Except.mapError, Outcome.ok_bind, handed]
              cases Page.of data p.page p.size (.ofInt elements) with
              | error f => rfl
              | ok page =>
                  simp only [Outcome.ok_bind, handedOut]
                  split <;> rfl

end Stored

end Assembler

/-! ## The query of a request -/

/-- A predicate that has a verdict on every record keeps those on which it is true. -/
theorem Source.satisfying_map {α : Type} {zone : Int} {p : Predicate} {g : α → Value}
    {passes : α → Bool} {xs : List α} (h : ∀ x ∈ xs, p.holds zone (g x) = .ok (passes x)) :
    Source.satisfying zone p (xs.map g) = .ok ((xs.filter passes).map g) := by
  induction xs with
  | nil => rfl
  | cons x xs ih =>
      obtain ⟨hx, hxs⟩ := List.forall_mem_cons.mp h
      rw [List.map_cons, Source.satisfying, hx, ih hxs, List.filter_cons]
      cases passes x <;> rfl

namespace Query

variable {s : Store} {root : Model} {predicate : Option Predicate} {keys : List SortKey}

/-- A predicate on plain columns makes a query that selects the rows on whose mirrors it holds. -/
theorem exists_narrowed (hs : s.Sound) (hroot : s.model? root.name = some root)
    (hpredicate : ∀ p ∈ predicate, s.Tests root p ∧ p.isDetachable false = true) :
    ∃ f passes depth,
      ({ store := s, model := root.name } : Query).narrowed predicate =
        .ok { store := s, model := root.name, filter := f } ∧
      Selects { store := s, model := root.name, filter := f } root passes ∧
      ∀ n ≥ depth, Assembler.kept 0 predicate ((s.rows root.name).map (s.mirror n root)) =
        .ok (((s.rows root.name).filter passes).map (s.mirror n root)) := by
  cases predicate with
  | none =>
      refine ⟨.empty, _, 0, rfl, selects_all, fun n _ => ?_⟩
      rw [List.filter_true]
      rfl
  | some p =>
      obtain ⟨htests, hdetachable⟩ := hpredicate p rfl
      obtain ⟨f, passes, depth, hnarrowed, hselects, hholds⟩ := exists_narrowed_some hs hroot htests
      exact ⟨f, passes, depth, hnarrowed, hselects, fun n hn =>
        Source.satisfying_map fun r hr => (hholds n hn r hr).2 hdetachable⟩

/-- A predicate on plain columns and keys that lead to plain columns make a query. -/
theorem exists_asking (hs : s.Sound) (hroot : s.model? root.name = some root)
    (hpredicate : ∀ p ∈ predicate, s.Tests root p ∧ p.isDetachable false = true)
    (hkeys : ∀ k ∈ keys, ∃ type, k.LeadsTo s root type) :
    ∃ f passes depth,
      ({ store := s, model := root.name } : Query).asking predicate keys =
        .ok { store := s, model := root.name, filter := f,
              order := keys.map fun k => (k.field, k.descending) } ∧
      Selects { store := s, model := root.name, filter := f,
                order := keys.map fun k => (k.field, k.descending) } root passes ∧
      ∀ n ≥ depth, Assembler.kept 0 predicate ((s.rows root.name).map (s.mirror n root)) =
        .ok (((s.rows root.name).filter passes).map (s.mirror n root)) := by
  obtain ⟨f, passes, depth, hnarrowed, hselects, hkept⟩ := exists_narrowed hs hroot hpredicate
  refine ⟨f, passes, depth, ?_, ⟨hselects.forward, hselects.settled⟩, hkept⟩
  rw [asking, hnarrowed, Outcome.ok_bind, ordered]
  cases keys with
  | nil => rfl
  | cons k ks =>
      have horder := orderBy_eq (q := { store := s, model := root.name, filter := f }) hs hroot hkeys
      rw [horder]
      rfl

end Query

/-! ## Requests by plain fields -/

/-- A store with the models that a context knows, and one of them whose rows are asked for.  The clock
shows universal time. -/
structure Store.Backs (s : Store) (x : Context) (root : Model) : Prop where
  sound : s.Sound
  regular : Regular s.models
  models : x.catalogue.models = s.models
  registry : x.registry.Faithful x.catalogue
  zone : x.zone = 0
  root : s.model? root.name = some root

namespace Predicate

mutual

/-- The names that lead to what a predicate tests, those of the collections that it searches first. -/
def tested : Predicate → List (List String)
  | .equals field _ | .contains field _ | .range field _ _ => [field]
  | .any collection inner => (tested inner).map (collection ++ ·)
  | .and items | .or items => testedBy items
  | .absent | .unknown => []

def testedBy : List Predicate → List (List String)
  | [] => []
  | p :: ps => tested p ++ testedBy ps

end

theorem testedBy_eq (ps : List Predicate) : testedBy ps = ps.flatMap tested := by
  induction ps with
  | nil => rfl
  | cons p ps ih => rw [testedBy, ih, List.flatMap_cons]

end Predicate

/-- The number of octets of the pattern for a piece of printable text: a wildcard on either side, and a
backslash before each character that a pattern has another use for. -/
def Pattern.octets (piece : String) : ℕ :=
  2 + piece.length + piece.toList.countP (['%', '_', '\\'].contains ·)

/-- The tables that names, the last of which is a column, lead through. -/
def Store.joinedFor (s : Store) (root : Model) (names : List String) : List Store.JoinedTable :=
  s.joins (some root) names.dropLast (names.getLastD "")

/-- Three limits of a store: on the length of a pattern, on the number of values in one query, and on the
number of tables that one query joins.  Queries as they are modelled do not fail at them, so that nothing is
derived from them; what is said of queries is only meant within them. -/
structure Store.Affords (s : Store) (root : Model) (predicate : Option Predicate) (keys : List SortKey) :
    Prop where
  patterns : ∀ p ∈ predicate, ∀ piece, .text piece ∈ p.operands → Pattern.octets piece ≤ 50000
  values : ∀ p ∈ predicate, p.operands.length ≤ 32766
  tables : ((((predicate.map Predicate.tested).getD [] ++ keys.map (·.field)).flatMap
    (s.joinedFor root)).eraseDups).length < 64

/-- A request with a predicate and keys by plain fields: its numbers can be written, it compares with values
that a store can keep, within the limits of the store, and its last key is that of the rows. -/
structure PageRequest.IsPlain (r : PageRequest) (x : Context) (s : Store) (root : Model) (p : Parameters)
    (predicate : Option Predicate) (keys : List SortKey) : Prop where
  parameters : r.parameters = some p
  directives : r.directives = .none
  page : 1 ≤ p.page.number
  size : 1 ≤ p.size.number
  written : p.page.hasText = true ∧ p.size.hasText = true ∧ Number.isWritable p.offset = true
  predicate_eq : Assembler.predicateOf x (some (.model root.name)) p = .ok predicate
  keys_eq : Assembler.keysOf x (some (.model root.name)) p = .ok keys
  filter : ∀ items, p.filterItems = .ok items → ∀ item ∈ items, ∀ f,
    Predicate.Concerns x (.model root.name) item f → f.isPlain = true
  sort : ∀ tokens, SortKey.read p.sort = .ok tokens → ∀ token ∈ tokens, ∀ path,
    x.resolve (.model root.name) (some token.property) = .ok path → path.leaf.isPlain = true
  storable : ∀ q ∈ predicate, ∀ v ∈ q.operands, v.IsStorable
  affordable : s.Affords root predicate keys
  last : ∃ k, keys.getLast? = some k ∧ k.field = ["id"]

namespace Assembler

variable {x : Context} {s : Store} {root : Model} {r : PageRequest} {p : Parameters}
  {predicate : Option Predicate} {keys : List SortKey}

section Plain

variable (hs : s.Backs x root) (hr : r.IsPlain x s root p predicate keys)

include hs hr

theorem tests_of_isPlain : ∀ q ∈ predicate, s.Tests root q ∧ q.isDetachable false = true := by
  rintro q rfl
  obtain ⟨given, -, hpredicate⟩ := Outcome.bind_eq_ok.mp hr.predicate_eq
  cases given with
  | false => cases hpredicate
  | true =>
      obtain ⟨t, ht, hpredicate⟩ := Outcome.bind_eq_ok.mp hpredicate
      obtain rfl : TypeRef.model root.name = t := Except.ok.inj ht
      obtain ⟨items, hitems, hpredicate⟩ := Outcome.bind_eq_ok.mp hpredicate
      obtain ⟨built, hbuild, hnoted⟩ := Outcome.bind_eq_ok.mp hpredicate
      obtain rfl := noted_eq_ok hnoted
      have hplain := hr.filter items hitems
      exact ⟨.of_build hs.models hs.regular hs.registry hs.root hplain hbuild
          (hr.storable q rfl),
        Store.Tests.isDetachable_of_build hs.models hs.regular hs.registry hs.root hplain hbuild⟩

theorem leadsTo_of_isPlain : ∀ k ∈ keys, ∃ type, k.LeadsTo s root type := by
  intro k hk
  obtain ⟨given, -, hkeys⟩ := Outcome.bind_eq_ok.mp hr.keys_eq
  cases given with
  | false =>
      obtain rfl : [] = keys := Except.ok.inj hkeys
      cases hk
  | true =>
      obtain ⟨t, ht, hkeys⟩ := Outcome.bind_eq_ok.mp hkeys
      obtain rfl : TypeRef.model root.name = t := Except.ok.inj ht
      obtain ⟨tokens, htokens, hkeys⟩ := Outcome.bind_eq_ok.mp hkeys
      obtain ⟨token, htoken, hofToken⟩ := (Outcome.mem_mapM hkeys).mp hk
      exact SortKey.exists_leadsTo hs.sound hs.models hs.regular hs.registry hs.root
        (hr.sort tokens htokens token htoken) hofToken

end Plain

/-! ## Pages -/

def storedPage (x : Context) (s : Store) (root : Model) (r : PageRequest) : Except Failure Page :=
  (page x (.source (.ofQuery { store := s, model := root.name })) r).outcome

/-- The page of the mirrors of the rows of a model, with related rows nested up to a depth. -/
def mirroredPage (x : Context) (s : Store) (root : Model) (depth : ℕ) (r : PageRequest) :
    Except Failure Page :=
  (page x (.source (.ofRecords ((s.rows root.name).map (s.mirror depth root))
    (some (.model root.name)))) r).outcome

/-- A page of a store is a slice of the query that the predicate and the keys make. -/
theorem storedPage_eq (hr : r.IsPlain x s root p predicate keys) :
    storedPage x s root r = (do
      let asked ← ({ store := s, model := root.name } : Query).asking predicate keys
      let elements ← asked.count.mapError .fault
      let data ← (asked.slice p.offset (p.offset + p.size.number)).mapError .fault
      handed p data elements) := by
  have hquery := queryOf_eq (q := { store := s, model := root.name }) hr.predicate_eq hr.keys_eq
  rw [storedPage, outcome_page_stored x p { store := s, model := root.name } hr.parameters
    hr.directives, hquery]

/-- A page of mirrors is a slice of the mirrors that the predicate keeps, in the order of the keys. -/
theorem mirroredPage_eq (hr : r.IsPlain x s root p predicate keys) {depth : ℕ}
    {chosen arranged : List Row}
    (hkept : kept x.zone predicate ((s.rows root.name).map (s.mirror depth root)) =
      .ok (chosen.map (s.mirror depth root)))
    (harranged : SortKey.arrangeAll keys (chosen.map (s.mirror depth root)) =
      .ok (arranged.map (s.mirror depth root)))
    {start size : ℕ} (hoffset : p.offset = start) (hsize : p.size.number = size) :
    mirroredPage x s root depth r =
      handed p (((arranged.drop start).take size).map (s.mirror depth root)) arranged.length := by
  let typed : PageRequest := { r with type := some (.model root.name) }
  have hrecords : mirroredPage x s root depth r =
      (page x (.records ((s.rows root.name).map (s.mirror depth root))) typed).outcome := by
    obtain ⟨parameters, directives, type, awaited⟩ := r
    obtain rfl : parameters = some p := hr.parameters
    rfl
  have htype : typeFor typed.type ((s.rows root.name).map (s.mirror depth root)) =
      some (.model root.name) := rfl
  rw [hrecords, outcome_page x p ((s.rows root.name).map (s.mirror depth root)) (r := typed)
    hr.parameters]
  simp only [htype, selection, hr.predicate_eq, Outcome.ok_bind, hkept, hr.keys_eq, harranged,
    hoffset, hsize]
  simp only [Except.mapError, Outcome.ok_bind, Source.between_natCast, List.length_map,
    List.map_take, List.map_drop, handed]

/-- The bounds of the slice that a plain request asks for. -/
theorem exists_bounds (hr : r.IsPlain x s root p predicate keys) :
    ∃ start size : ℕ, p.offset = start ∧ p.size.number = size ∧ 0 < size := by
  have hpositive : 0 ≤ p.size.number := Int.le_trans Int.one_nonneg hr.size
  obtain ⟨size, hsize⟩ := Int.eq_ofNat_of_zero_le hpositive
  obtain ⟨start, hstart⟩ : ∃ start : ℕ, p.offset = start :=
    Int.eq_ofNat_of_zero_le (Int.mul_nonneg (Int.sub_nonneg_of_le hr.page) hpositive)
  exact ⟨start, size, hstart, hsize, Int.natCast_pos.mp (hsize ▸ hr.size)⟩

section Arranged

variable (hs : s.Backs x root) (hr : r.IsPlain x s root p predicate keys)

include hs hr

/-- The keys of a plain request tell any two rows apart. -/
theorem eq_of_inOrder : ∀ a ∈ s.rows root.name, ∀ b ∈ s.rows root.name,
    SortKey.InOrder s root keys a b → SortKey.InOrder s root keys b a → a = b := by
  intro a ha b hb hab hba
  obtain ⟨last, hlast, hid⟩ := hr.last
  exact hab.antisymm hs.sound (List.mem_of_getLast? hlast) hid ha hb hba

/-- A page with some of the rows can be made. -/
theorem exists_page {arranged : List Row} (harranged : arranged.length ≤ (s.rows root.name).length) :
    ∃ pages, ∀ data, handed p data arranged.length =
      .ok ⟨data, p.page, p.size, .ofInt arranged.length, pages⟩ := by
  obtain ⟨pages, hpages⟩ :=
    exists_totalPages (harranged.trans (hs.sound.length_rows_le root.name)) hr.size
  obtain ⟨hpage, hsize, -⟩ := hr.written
  refine ⟨pages, fun data => ?_⟩
  rw [handed, Page.of, Whole.ofInt, hpages]
  have hnote : Page.hasNote ⟨data, p.page, p.size, .ofInt arranged.length, pages⟩ = true := by
    rw [Page.hasNote, hpage, hsize]
    rfl
  exact if_pos hnote

/-- The rows that pass stand in one order, and a page of mirrors, if these are deep enough, is a slice of
them. -/
theorem exists_arranged {passes : Row → Bool} {depth : ℕ}
    (hkept : ∀ n ≥ depth, kept 0 predicate ((s.rows root.name).map (s.mirror n root)) =
      .ok (((s.rows root.name).filter passes).map (s.mirror n root)))
    {start size : ℕ} (hstart : p.offset = start) (hsize : p.size.number = size) :
    ∃ arranged : List Row, arranged.Perm ((s.rows root.name).filter passes) ∧
      arranged.Pairwise (SortKey.InOrder s root keys) ∧
      ∃ depth', ∀ n ≥ depth', mirroredPage x s root n r =
        handed p (((arranged.drop start).take size).map (s.mirror n root)) arranged.length := by
  obtain ⟨arranged, hperm, hsorted⟩ :=
    SortKey.exists_inOrder keys s root ((s.rows root.name).filter passes)
  have hrows : ∀ r ∈ (s.rows root.name).filter passes, r ∈ s.rows root.name :=
    fun r hr => List.mem_of_mem_filter hr
  refine ⟨arranged, hperm, hsorted, max depth (keys.map (·.field.length)).sum, fun n hn => ?_⟩
  obtain ⟨hdepth, hlengths⟩ := max_le_iff.mp hn
  have hlengths : ∀ k ∈ keys, k.field.length ≤ n := fun k hk =>
    (List.le_sum_of_mem (List.mem_map_of_mem hk)).trans hlengths
  exact mirroredPage_eq hr (hs.zone ▸ hkept n hdepth)
    (SortKey.exists_arrangeAll_mirrors hs.sound (Store.mem_of_model? hs.root).1
      (leadsTo_of_isPlain hs hr) hlengths hrows hperm hsorted fun a ha b hb =>
        eq_of_inOrder hs hr a (hrows a ha) b (hrows b hb)) hstart hsize

/-- A plain request gets a page of the mirrors of any rows, if these are deep enough. -/
theorem exists_mirroredPage :
    ∃ depth, ∀ n ≥ depth, ∃ memory, mirroredPage x s root n r = .ok memory := by
  obtain ⟨start, size, hstart, hsize, -⟩ := exists_bounds hr
  obtain ⟨-, passes, depth, -, -, hkept⟩ :=
    Query.exists_asking hs.sound hs.root (tests_of_isPlain hs hr) (leadsTo_of_isPlain hs hr)
  obtain ⟨arranged, hperm, -, depth, hmirrored⟩ := exists_arranged hs hr hkept hstart hsize
  obtain ⟨pages, hpages⟩ := exists_page hs hr
    (hperm.length_eq.trans_le (List.length_filter_le _ _))
  exact ⟨depth, fun n hn => ⟨_, (hmirrored n hn).trans (hpages _)⟩⟩

end Arranged

/-- A page of a store and one of mirrors show the same rows, none of them twice, and tell the same
numbers. -/
structure SamePage (s : Store) (root : Model) (depth : ℕ) (stored memory : Page) : Prop where
  data : ∃ rows : List Row, (rows.map (·.key)).Nodup ∧
    stored.data = rows.map (fun r => .row root.name r.key) ∧
    memory.data = rows.map (s.mirror depth root)
  elements : stored.elements = memory.elements
  pages : stored.pages = memory.pages

/-- A plain request gets the same page from a store and from mirrors of its rows.  Within its other limits
the store fails in two ways only: its condition is nested too deeply, or it cannot keep the bounds of the
slice. -/
theorem storedPage_eq_mirroredPage (hs : s.Backs x root)
    (hr : r.IsPlain x s root p predicate keys) :
    ∃ asked depth, ({ store := s, model := root.name } : Query).asking predicate keys = .ok asked ∧
      ∀ n ≥ depth, ∃ memory, mirroredPage x s root n r = .ok memory ∧
        (asked.IsTooDeep ∧ storedPage x s root r = .error (.fault .tooComplex) ∨
          ¬ asked.IsTooDeep ∧
            ((∃ stored, storedPage x s root r = .ok stored ∧ SamePage s root n stored memory) ∨
              storedPage x s root r = .error (.fault .outOfStore) ∧
                ¬ (Cell.fits p.offset = true ∧ Cell.fits p.size.number = true))) := by
  have hleads := leadsTo_of_isPlain hs hr
  obtain ⟨start, size, hstart, hsize, hpositive⟩ := exists_bounds hr
  obtain ⟨f, passes, depth, hasked, hselects, hkept⟩ :=
    Query.exists_asking hs.sound hs.root (tests_of_isPlain hs hr) hleads
  obtain ⟨arranged, hperm, hsorted, depth, hmirrored⟩ := exists_arranged hs hr hkept hstart hsize
  obtain ⟨pages, hpages⟩ := exists_page hs hr
    (hperm.length_eq.trans_le (List.length_filter_le _ _))
  have hstored := storedPage_eq (s := s) hr
  rw [hasked, Outcome.ok_bind, hstart, hsize] at hstored
  refine ⟨_, depth, hasked, fun n hn => ⟨_, (hmirrored n hn).trans (hpages _), ?_⟩⟩
  rcases hselects.read_cases hs.sound hs.regular rfl hs.root hleads rfl rfl rfl hperm hsorted
    (fun a ha b hb => eq_of_inOrder hs hr a (List.mem_of_mem_filter ha) b (List.mem_of_mem_filter hb))
    start hpositive with ⟨hdeep, hread⟩ | ⟨hdeep, hcount, hread⟩
  · refine .inl ⟨hdeep, ?_⟩
    rcases hread with hcount | ⟨hcount, hslice⟩
    · rw [hstored, hcount]
      rfl
    · rw [hstored, hcount, hslice]
      rfl
  · refine .inr ⟨hdeep, ?_⟩
    rcases hread with hslice | ⟨hslice, hfits⟩
    · refine .inl ⟨⟨((arranged.drop start).take size).map fun r => .row root.name r.key, p.page,
        p.size, .ofInt arranged.length, pages⟩, ?_, ⟨⟨_, ?_, rfl, rfl⟩, rfl, rfl⟩⟩
      · rw [hstored, hcount, hslice]
        exact hpages _
      · have hnodup : (((s.rows root.name).filter passes).map (·.key)).Nodup :=
          List.pairwise_map.mpr (((hs.sound.sorted root.name).filter _).imp fun hlt => hlt.ne)
        rw [List.map_take, List.map_drop]
        exact (((hperm.map (·.key)).nodup_iff.mpr hnodup).sublist (List.drop_sublist _ _)).sublist
          (List.take_sublist _ _)
    · refine .inr ⟨?_, ?_⟩
      · rw [hstored, hcount, hslice]
        rfl
      · rwa [hstart, hsize]

/-! ## Tags -/

def bundled : Context where
  catalogue := { models := Bundled.models }

/-- A store of the bundled models that holds two tags. -/
def twoTags : Store where
  models := Bundled.models
  tables := [("Tag", [{ key := 1, cells := [("name", .text "ada")] },
    { key := 2, cells := [("name", .text "lean")] }])]

theorem sound_twoTags : twoTags.Sound :=
  Store.sound_of_isSound (by decide +kernel)

theorem backs_twoTags : twoTags.Backs bundled Bundled.tag where
  sound := sound_twoTags
  regular := Bundled.regular
  models := rfl
  registry := Registry.Filled.empty.faithful
  zone := rfl
  root := rfl

def idPath : ResolvedPath :=
  ⟨some "id", [Field.ofColumn bundled.catalogue "id" .integer []], "id", none⟩

theorem resolve_id : bundled.resolve (.model "Tag") (some "id") = .ok idPath := by rfl

theorem comparisons_ones (n : ℕ) :
    Predicate.comparisons idPath.leaf ["id"] ⟨some "id", List.replicate n (some "1")⟩ =
        .ok (List.replicate n (.equals ["id"] (.int 1))) := by
  have husable : Predicate.usableValues ⟨some "id", List.replicate n (some "1")⟩ =
      List.replicate n "1" := by
    rw [Predicate.usableValues, List.filterMap_replicate]
    rfl
  have hkind : ¬ idPath.leaf.kind = .string := by decide
  have hconvert : idPath.leaf.convert "1" (some "id") = .ok (.int 1) := by rfl
  rw [Predicate.comparisons, if_neg hkind, husable, Outcome.mapM_eq_ok]
  dsimp only
  clear husable
  induction n with
  | zero => exact .nil
  | succ n ih => exact .cons (by rw [hconvert]; rfl) ih

theorem build_ones (n : ℕ) :
    Predicate.build bundled (.model "Tag") [⟨some "id", List.replicate (n + 2) (some "1")⟩] =
      .ok (some (.or (List.replicate (n + 2) (.equals ["id"] (.int 1))))) := by
  have hleaf : Predicate.ofLeaf bundled.settings idPath.leaf idPath.field
      ⟨some "id", List.replicate (n + 2) (some "1")⟩ =
        .ok (.or (List.replicate (n + 2) (.equals ["id"] (.int 1)))) := by
    have hkind : idPath.leaf.kind = .scalar := rfl
    have hfield : idPath.field = ["id"] := rfl
    rw [Predicate.ofLeaf, hkind, hfield]
    dsimp only
    rw [comparisons_ones]
    rfl
  have hitem : Predicate.ofItem bundled (.model "Tag") ⟨some "id", List.replicate (n + 2) (some "1")⟩ =
      .ok (.or (List.replicate (n + 2) (.equals ["id"] (.int 1)))) := by
    have hcollection : ¬ idPath.isCollection = true := by decide
    rw [Predicate.ofItem, if_neg (by simp), resolve_id, Outcome.ok_bind, if_neg hcollection, hleaf]
    rfl
  rw [Predicate.build, List.mapM_cons, hitem]
  rfl

def tagsBy (page size : ℤ) (filter : Value) : PageRequest where
  parameters := some ⟨.ofInt page, .ofInt size, .text "id", filter⟩

/-- A filter for tags that have one of several keys, all of which are the same. -/
def ones (n : ℕ) : FilterItem := ⟨some "id", List.replicate n (some "1")⟩

theorem isClause_ones (n : ℕ) : (ones (n + 1)).isClause = true := by
  have hpath : Filter.isPath "id".toList = true := by decide +kernel
  have hvalue : Filter.isValue "1".toList = true := by decide +kernel
  simp only [ones, FilterItem.isClause, Option.any_some, hpath, List.all_replicate, hvalue]
  rfl

/-- The keys of tags are plain. -/
theorem isPlain_of_resolve_id {path : ResolvedPath}
    (h : bundled.resolve (.model "Tag") (some "id") = .ok path) :
    path.isCollection = false ∧ path.leaf.isPlain = true := by
  obtain rfl := Except.ok.inj (resolve_id.symm.trans h)
  exact ⟨rfl, rfl⟩

theorem isPlain_of_tokens {tokens : List SortKey} (h : SortKey.read (.text "id") = .ok tokens) :
    ∀ token ∈ tokens, ∀ path, bundled.resolve (.model "Tag") (some token.property) = .ok path →
      path.leaf.isPlain = true := by
  have hread : SortKey.read (.text "id") = .ok [⟨"id", false⟩] := by rfl
  obtain rfl := Except.ok.inj (hread.symm.trans h)
  intro token htoken path hpath
  obtain rfl := List.mem_singleton.mp htoken
  exact (isPlain_of_resolve_id hpath).2

/-- What asks for tags by few keys is within the limits of a store. -/
theorem affords_ids {predicate : Option Predicate}
    (htested : ∀ q ∈ predicate, ∀ names ∈ q.tested, names = ["id"])
    (hoperands : ∀ q ∈ predicate, (∀ v ∈ q.operands, v = .int 1) ∧ q.operands.length ≤ 32766) :
    twoTags.Affords Bundled.tag predicate [⟨"id", false⟩] where
  patterns q hq piece hpiece := nomatch (hoperands q hq).1 _ hpiece
  values q hq := (hoperands q hq).2
  tables := by
    have hall : ∀ names ∈ (predicate.map Predicate.tested).getD [] ++ [["id"]],
        twoTags.joinedFor Bundled.tag names = [] := by
      intro names hnames
      have hid : names = ["id"] := by
        rcases List.mem_append.mp hnames with hnames | hnames
        · cases predicate with
          | none => cases hnames
          | some q => exact htested q rfl names hnames
        · exact List.mem_singleton.mp hnames
      rw [hid]
      rfl
    have hkey : SortKey.field ⟨"id", false⟩ = ["id"] := by decide
    rw [List.map_singleton, hkey, List.flatMap_eq_nil_iff.mpr hall]
    decide

theorem isPlain_ones {n : ℕ} (hn : n + 2 ≤ 32766) :
    (tagsBy 1 1 (.text (Filter.render [ones (n + 2)]))).IsPlain bundled twoTags Bundled.tag
      ⟨.ofInt 1, .ofInt 1, .text "id", .text (Filter.render [ones (n + 2)])⟩
      (some (.or (List.replicate (n + 2) (.equals ["id"] (.int 1))))) [⟨"id", false⟩] := by
  obtain ⟨hgiven, hitems⟩ := Parameters.filterItems_render
    (p := ⟨.ofInt 1, .ofInt 1, .text "id", .text (Filter.render [ones (n + 2)])⟩) rfl
    (List.forall_mem_singleton.mpr (isClause_ones (n + 1)))
  have hoperands : (Predicate.or (List.replicate (n + 2) (.equals ["id"] (.int 1)))).operands =
      List.replicate (n + 2) (.int 1) := by
    rw [Predicate.operands, Predicate.operandsOf_eq, List.flatMap_replicate]
    simp [Predicate.operands]
  have hoffset : Number.isWritable ((0 : ℕ) : ℤ) = true := Number.isWritable_of_le (Nat.zero_le _)
  refine ⟨rfl, rfl, le_rfl, le_rfl, ⟨rfl, rfl, hoffset⟩, ?_, by rfl, ?_,
    fun tokens h => isPlain_of_tokens h, ?_, affords_ids ?_ ?_, ⟨_, rfl, by decide⟩⟩
  · rw [predicateOf, hgiven, Outcome.ok_bind, if_pos rfl, hitems]
    have hroot : (recordType (.ofRecords [] (some (.model "Tag")))).mapError Failure.request =
        .ok (.model "Tag") := rfl
    rw [Bundled.tag, hroot, Outcome.ok_bind, Outcome.ok_bind, ones, build_ones]
    rfl
  · intro items h item hitem f hf
    obtain rfl := Except.ok.inj (hitems.symm.trans h)
    obtain rfl := List.mem_singleton.mp hitem
    obtain ⟨path, hpath, hf⟩ := hf
    obtain ⟨hcollection, hplain⟩ := isPlain_of_resolve_id hpath
    rw [hcollection, if_neg Bool.false_ne_true] at hf
    exact hf ▸ hplain
  · rintro q ⟨⟩ v hv
    obtain rfl := List.eq_of_mem_replicate (hoperands ▸ hv)
    rfl
  · rintro q ⟨⟩ names hnames
    rw [Predicate.tested, Predicate.testedBy_eq] at hnames
    obtain ⟨q, hq, hnames⟩ := List.mem_flatMap.mp hnames
    obtain rfl := List.eq_of_mem_replicate hq
    exact List.mem_singleton.mp hnames
  · rintro q ⟨⟩
    rw [hoperands, List.length_replicate]
    exact ⟨fun v hv => List.eq_of_mem_replicate hv, hn⟩

theorem isPlain_all {page size : ℤ} (hpage : 1 ≤ page) (hsize : 1 ≤ size)
    (hwritten : Number.isWritable page = true ∧ Number.isWritable size = true ∧
      Number.isWritable ((page - 1) * size) = true) :
    (tagsBy page size .none).IsPlain bundled twoTags Bundled.tag
      ⟨.ofInt page, .ofInt size, .text "id", .none⟩ none [⟨"id", false⟩] := by
  refine ⟨rfl, rfl, hpage, hsize, hwritten, rfl, by rfl, ?_, fun tokens h => isPlain_of_tokens h, ?_,
    affords_ids nofun nofun, ⟨_, rfl, by decide⟩⟩
  · intro items h item hitem
    obtain rfl : [] = items := Except.ok.inj h
    cases hitem
  · rintro q ⟨⟩

/-- One of two tags is asked for by its key, and both ways give a page with it alone. -/
theorem storedPage_ones :
    (twoTags.Backs bundled Bundled.tag ∧
        (tagsBy 1 1 (.text (Filter.render [ones 2]))).IsPlain bundled twoTags Bundled.tag
          ⟨.ofInt 1, .ofInt 1, .text "id", .text (Filter.render [ones 2])⟩
          (some (.or [.equals ["id"] (.int 1), .equals ["id"] (.int 1)])) [⟨"id", false⟩]) ∧
      ∃ depth, ∀ n ≥ depth, ∃ stored memory,
        storedPage bundled twoTags Bundled.tag (tagsBy 1 1 (.text (Filter.render [ones 2]))) =
            .ok stored ∧
          mirroredPage bundled twoTags Bundled.tag n
            (tagsBy 1 1 (.text (Filter.render [ones 2]))) = .ok memory ∧
          SamePage twoTags Bundled.tag n stored memory ∧ stored.elements.number = 1 := by
  have hr := isPlain_ones (by decide : 0 + 2 ≤ 32766)
  refine ⟨⟨backs_twoTags, hr⟩, ?_⟩
  have hone : (storedPage bundled twoTags Bundled.tag
      (tagsBy 1 1 (.text (Filter.render [ones 2])))).toOption.map (·.elements.number) = some 1 := by
    rw [storedPage_eq hr]
    decide +kernel
  obtain ⟨page, hpage, hone⟩ := Option.map_eq_some_iff.mp hone
  replace hpage := Outcome.toOption_eq_some.mp hpage
  obtain ⟨asked, depth, -, hpages⟩ := storedPage_eq_mirroredPage backs_twoTags hr
  refine ⟨depth, fun n hn => ?_⟩
  obtain ⟨memory, hmemory, ⟨-, hstored⟩ | ⟨-, ⟨stored, hstored, hsame⟩ | ⟨hstored, -⟩⟩⟩ :=
    hpages n hn
  · cases hpage.symm.trans hstored
  · obtain rfl := Except.ok.inj (hpage.symm.trans hstored)
    exact ⟨_, memory, hpage, hmemory, hsame, hone⟩
  · cases hpage.symm.trans hstored

/-- A store refuses requests that mirrors of its rows answer: one with very many conditions, and one for a
page that is very far away. -/
theorem storedPage_refused :
    twoTags.Backs bundled Bundled.tag ∧
      ∀ r ∈ [(tagsBy 1 1 (.text (Filter.render [ones 1001])), Fault.tooComplex),
          (tagsBy (2 ^ 62) 4 .none, Fault.outOfStore)],
        (∃ p predicate keys, r.1.IsPlain bundled twoTags Bundled.tag p predicate keys) ∧
          (∃ depth, ∀ n ≥ depth, ∃ memory,
            mirroredPage bundled twoTags Bundled.tag n r.1 = .ok memory) ∧
          storedPage bundled twoTags Bundled.tag r.1 = .error (.fault r.2) := by
  have hmany := isPlain_ones (by decide : 999 + 2 ≤ 32766)
  have hfar := isPlain_all (by norm_num : (1 : ℤ) ≤ 2 ^ 62) (by norm_num : (1 : ℤ) ≤ 4) (by decide +kernel)
  refine ⟨backs_twoTags, List.forall_mem_cons.mpr ⟨⟨⟨_, _, _, hmany⟩,
    exists_mirroredPage backs_twoTags hmany, ?_⟩, List.forall_mem_singleton.mpr ⟨⟨_, _, _, hfar⟩,
    exists_mirroredPage backs_twoTags hfar, ?_⟩⟩⟩
  · rw [storedPage_eq hmany, ← Outcome.fault?_eq_some]
    decide +kernel
  · rw [← Outcome.fault?_eq_some]
    decide +kernel

end Assembler
end PageQuery
