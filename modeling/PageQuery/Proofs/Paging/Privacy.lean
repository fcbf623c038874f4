import Mathlib
import PageQuery.Proofs.Ordering.Renaming
import PageQuery.Proofs.Paging.Selection
import PageQuery.Proofs.Predicate.Privacy

/-!
# Pages show nothing of private attributes

A page is asked of two lists whose records agree, place by place, on everything public.  Filters and
sorts look at records through predicates and comparisons only, and these have the same outcome on both
sides, as long as records are equal on the one side exactly if they are on the other.  So either nothing
comes of the request on both sides, for the same reason, or both pages have the records that stand at the
same places of their lists.  A type whose records are equal if they hold the same, private attributes
included, can tell the two sides apart: a sort by records is refused unless they are equal.
-/

namespace PageQuery

/-- Two runs take the items that stand for the same places, or fail alike. -/
def Alike {ι ε : Type} (g g' : ι → Value) (r r' : Except ε (List Value)) : Prop :=
  ∃ places : Except ε (List ι), r = places.map (List.map g) ∧ r' = places.map (List.map g')

namespace Alike

variable {ι ε ε' : Type} {g g' : ι → Value} {r r' : Except ε (List Value)}

theorem error (e : ε) : Alike g g' (.error e) (.error e) :=
  ⟨.error e, rfl, rfl⟩

theorem ok (places : List ι) :
    Alike g g' (.ok (places.map g) : Except ε (List Value)) (.ok (places.map g')) :=
  ⟨.ok places, rfl, rfl⟩

theorem bind (h : Alike g g' r r') {f f' : List Value → Except ε (List Value)}
    (hf : ∀ places : List ι, Alike g g' (f (places.map g)) (f' (places.map g'))) :
    Alike g g' (r >>= f) (r' >>= f') := by
  obtain ⟨places, rfl, rfl⟩ := h
  cases places with
  | error e => exact error e
  | ok places => exact hf places

theorem mapError (h : Alike g g' r r') (f : ε → ε') : Alike g g' (r.mapError f) (r'.mapError f) := by
  obtain ⟨places, rfl, rfl⟩ := h
  cases places with
  | error e => exact error (f e)
  | ok places => exact ok places

end Alike

section Runs

variable {twin : Value → Value → Prop} (htwin : Value.Respects twin) {ι : Type} {g g' : ι → Value}
  (hagree : ∀ i, (g i).Agrees twin (g' i))

/-! ## Sorting -/

namespace SortKey

def ReadsPublic (k : SortKey) : Prop :=
  ∀ name ∈ k.field, isPrivate name = false

include htwin

theorem before_eq_of_agrees {k : SortKey} (hk : k.ReadsPublic) {a a' b b' : Value}
    (ha : a.Agrees twin a') (hb : b.Agrees twin b') : k.before a b = k.before a' b' := by
  have hu : (k.valueOf a).Agrees twin (k.valueOf a') := ha.follow hk
  have hv : (k.valueOf b).Agrees twin (k.valueOf b') := hb.follow hk
  rw [before, before, hu.isSameMember_eq hv, hu.sortValue.before_eq htwin hv.sortValue]

include hagree

/-- Items that agree are sorted into the same places. -/
theorem arrange_alike {k : SortKey} (hk : k.ReadsPublic) (places : List ι) :
    Alike g g' (k.arrange (places.map g)) (k.arrange (places.map g')) := by
  have hless : (fun i j => k.before (g i) (g j)) = fun i j => k.before (g' i) (g' j) := by
    funext i j
    exact before_eq_of_agrees htwin hk (hagree i) (hagree j)
  rw [arrange, arrange]
  split
  · exact ⟨Ordering.sortDescending (fun i j => k.before (g i) (g j)) places,
      Ordering.sortDescending_map g k.before places,
      hless ▸ Ordering.sortDescending_map g' k.before places⟩
  · exact ⟨Ordering.sort (fun i j => k.before (g i) (g j)) places,
      Ordering.sort_map g k.before places, hless ▸ Ordering.sort_map g' k.before places⟩

theorem arrangeAll_alike {keys : List SortKey} (hkeys : ∀ k ∈ keys, k.ReadsPublic)
    (places : List ι) :
    Alike g g' (arrangeAll keys (places.map g)) (arrangeAll keys (places.map g')) := by
  induction keys with
  | nil => exact .ok places
  | cons k keys ih =>
      obtain ⟨hk, hkeys⟩ := List.forall_mem_cons.mp hkeys
      obtain ⟨sorted, hsorted, hsorted'⟩ := ih hkeys
      rw [arrangeAll, arrangeAll, hsorted, hsorted']
      cases sorted with
      | error e => exact .error e
      | ok sorted => exact arrange_alike htwin hagree hk sorted

end SortKey

/-! ## Filtering -/

include htwin hagree

theorem Source.satisfying_alike {p : Predicate} (hp : p.ReadsPublic twin) (zone : ℤ)
    (places : List ι) :
    Alike g g' (satisfying zone p (places.map g)) (satisfying zone p (places.map g')) := by
  induction places with
  | nil => exact .ok []
  | cons i places ih =>
      rw [List.map_cons, List.map_cons, satisfying, satisfying,
        Predicate.holds_eq_of_agrees htwin hp (hagree i)]
      cases p.holds zone (g' i) with
      | error e => exact .error e
      | ok keep =>
          obtain ⟨rest, hrest, hrest'⟩ := ih
          rw [hrest, hrest']
          cases rest with
          | error e => exact .error e
          | ok rest =>
              cases keep with
              | true => exact .ok (i :: rest)
              | false => exact .ok rest

theorem Assembler.kept_alike {p : Option Predicate} (hp : ∀ q ∈ p, q.ReadsPublic twin) (zone : ℤ)
    (places : List ι) :
    Alike g g' (kept zone p (places.map g)) (kept zone p (places.map g')) := by
  cases p with
  | none => exact .ok places
  | some q => exact Source.satisfying_alike htwin hagree (hp q rfl) zone places

end Runs

/-! ## Requests -/

namespace Assembler

theorem between_map {ι : Type} (g : ι → Value) (places : List ι) (start stop : ℤ) :
    Source.between (places.map g) start stop = (Source.between places start stop).map g := by
  simp [Source.between, List.map_take]

/-- Without parameters there is no page of records in memory. -/
theorem page_of_no_parameters (x : Context) (records : List Value) {r : PageRequest}
    (hr : r.parameters = none) :
    (page x (.records records) r).outcome = .error (.request .noParameters) := by
  simp [page, prepare, checkArguments, hr, Traced.outcome_bind, outcome_asked, Except.mapError]

end Assembler

section Requests

variable {twin : Value → Value → Prop} {x : Context} (hregistry : x.registry.Faithful x.catalogue)
  (hc : x.catalogue.Shared twin) (htwin : Value.Respects twin)

include hregistry hc

/-- Whatever a sort asks for, its keys read nothing private. -/
theorem SortKey.readsPublic_of_build {root : TypeRef} {sort : Value} {keys : List SortKey}
    (h : build x root sort = .ok keys) : ∀ k ∈ keys, k.ReadsPublic := by
  intro k hk
  obtain ⟨tokens, -, htokens⟩ := Outcome.bind_eq_ok.mp h
  obtain ⟨token, -, hkey⟩ := (Outcome.mem_mapM htokens).mp hk
  obtain ⟨p, hp, hkey⟩ := Outcome.bind_eq_ok.mp hkey
  split at hkey
  · cases hkey
  · split at hkey
    · cases hkey
    · obtain rfl := Except.ok.inj hkey
      have hpoints : ∀ name ∈ p.field, '.' ∉ name.toList := by
        intro name hname
        obtain ⟨f, hf, rfl⟩ := List.mem_map.mp hname
        exact (Context.nameable_of_resolve hregistry hc hp f hf).2
      rw [ReadsPublic, SortKey.field, ResolvedPath.dotted,
        split_intercalate rfl (Context.field_ne_nil hp) hpoints]
      exact Context.isPublic_of_resolve hregistry hc hp

namespace Assembler

variable {type : Option TypeRef} {p : Parameters}

theorem readsPublic_of_predicateOf {predicate : Option Predicate}
    (h : predicateOf x type p = .ok predicate) : ∀ q ∈ predicate, q.ReadsPublic twin := by
  obtain ⟨given, -, h⟩ := Outcome.bind_eq_ok.mp h
  cases given with
  | false =>
      obtain rfl := Except.ok.inj h
      nofun
  | true =>
      obtain ⟨root, -, h⟩ := Outcome.bind_eq_ok.mp h
      obtain ⟨items, -, h⟩ := Outcome.bind_eq_ok.mp h
      obtain ⟨built, hbuilt, h⟩ := Outcome.bind_eq_ok.mp h
      obtain rfl := noted_eq_ok h
      rintro q rfl
      exact Predicate.readsPublic_of_build hregistry hc hbuilt

theorem readsPublic_of_keysOf {keys : List SortKey} (h : keysOf x type p = .ok keys) :
    ∀ k ∈ keys, k.ReadsPublic := by
  obtain ⟨given, -, h⟩ := Outcome.bind_eq_ok.mp h
  cases given with
  | false =>
      obtain rfl := Except.ok.inj h
      nofun
  | true =>
      obtain ⟨root, -, h⟩ := Outcome.bind_eq_ok.mp h
      exact SortKey.readsPublic_of_build hregistry hc h

include htwin

/-- A request selects the items that stand for the same places. -/
theorem selection_alike {ι : Type} {g g' : ι → Value} (hagree : ∀ i, (g i).Agrees twin (g' i))
    (type : Option TypeRef) (p : Parameters) (places : List ι) :
    Alike g g' (selection x type p (places.map g)) (selection x type p (places.map g')) := by
  rw [selection, selection]
  cases hpredicate : predicateOf x type p with
  | error e => exact .error e
  | ok predicate =>
      refine (kept_alike htwin hagree (readsPublic_of_predicateOf hregistry hc hpredicate) _ places).bind
        fun chosen => ?_
      cases hkeys : keysOf x type p with
      | error e => exact .error e
      | ok keys =>
          exact (SortKey.arrangeAll_alike htwin hagree (readsPublic_of_keysOf hregistry hc hkeys)
            chosen).mapError _

end Assembler

end Requests

namespace Assembler

/-- Records that are equal to themselves only, each of which stands for the one of another number. -/
def Renamed (rename : ℕ ↪ ℕ) (r r' : Value) : Prop :=
  ∃ n type es fs, r = .record (.own n) type es ∧ r' = .record (.own (rename n)) type fs

/-- Where records are equal to themselves only, it is enough that different ones stand for different
ones. -/
theorem respects_renamed (rename : ℕ ↪ ℕ) : Value.Respects (Renamed rename) := by
  rintro _ _ _ _ ⟨n, type, es, fs, rfl, rfl⟩ ⟨m, type', es', fs', rfl, rfl⟩
  simp [Value.same, Identity.isShared, rename.injective.eq_iff]

/-- Accounts with a name and a secret, of which introspection registers the name. -/
def accounts : Context :=
  let catalogue : Catalogue :=
    { records := [⟨"Account", true, [], [("name", .type (.builtin "str")),
        ("_secret", .type (.builtin "str"))]⟩] }
  { catalogue, registry := (Registry.introspect catalogue {} (.record "Account")).1 }

def account (n : ℕ) (name secret : String) : Value :=
  .record (.own n) "Account" [("name", .text name), ("_secret", .text secret)]

/-- The first page of the accounts with an `a` in their names, by name. -/
def byName : PageRequest where
  parameters := some
    { page := .ofInt 1, size := .ofInt 10, sort := .text "name", filter := .text "name[a]" }

/-- Records with a name and a secret agree if they have the same name, as far as they may stand for each
other. -/
theorem agrees_of_name {twin : Value → Value → Prop} {i j : Identity} {type name secret secret' : String}
    (htwin : twin (.record i type [("name", .text name), ("_secret", .text secret)])
      (.record j type [("name", .text name), ("_secret", .text secret')])) :
    Value.Agrees twin (.record i type [("name", .text name), ("_secret", .text secret)])
      (.record j type [("name", .text name), ("_secret", .text secret')]) := by
  refine .record htwin fun asked hpublic => ?_
  have hsecret : (asked == "_secret") = false := by
    rw [beq_eq_false_iff_ne]
    rintro rfl
    exact absurd hpublic (by decide)
  cases hname : asked == "name" with
  | true => simpa [List.lookup_cons, hname] using Value.Agrees.atom rfl
  | false => simpa [List.lookup_cons, hname, hsecret] using Value.Agrees.none

/-- Accounts of the same name agree, whatever their secrets are. -/
theorem agrees_account (n : ℕ) (name secret secret' : String) :
    (account n name secret).Agrees (Renamed (addRightEmbedding 10)) (account (n + 10) name secret') :=
  agrees_of_name ⟨n, _, _, _, rfl, rfl⟩

/-- Posts, whose owner is a record with a secret or a text. -/
def posts : Context where
  catalogue :=
    { records :=
        [⟨"Owner", true, [], [("name", .type (.builtin "str")), ("_secret", .type (.builtin "str"))]⟩,
          ⟨"Post", true, [],
            [("owner", .union [.type (.record "Owner"), .type (.builtin "str")])]⟩] }

/-- A post of an owner who is equal to every other one of the same name and secret. -/
def postOf (n : ℕ) (secret : String) : Value :=
  .record (.own n) "Post"
    [("owner", .record (.shared n) "Owner" [("name", .text "Ada"), ("_secret", .text secret)])]

def byOwner : PageRequest where
  parameters := some { page := .ofInt 1, size := .ofInt 10, sort := .text "owner" }

theorem agrees_postOf (n : ℕ) (secret secret' : String) :
    (postOf n secret).Agrees (fun _ _ => True) (postOf n secret') := by
  refine .record trivial fun asked _ => ?_
  cases howner : asked == "owner" with
  | true => simpa [List.lookup_cons, howner] using agrees_of_name trivial
  | false => simpa [List.lookup_cons, howner] using Value.Agrees.none

end Assembler
end PageQuery
