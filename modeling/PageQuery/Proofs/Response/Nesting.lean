import Mathlib
import PageQuery.Proofs.Outcome
import PageQuery.Proofs.Text.Parts
import PageQuery.Response

/-!
# Nested responses

The response of a record grows path by path: a path that a shorter one has cut off before adds nothing,
and a shorter one replaces whatever was put below it.  Either way the entries are the tree of the paths
that were asked for so far, and as that tree is described by the set of these paths alone, neither the
order of the requests nor a repetition makes a difference.
-/

namespace PageQuery

open PageQuery.Text

namespace Value

def isMapping : Value → Bool
  | .mapping _ => true
  | _ => false

/-- The value to which keys lead from mapping to mapping. -/
def find? (v : Value) : List String → Option Value
  | [] => some v
  | key :: names =>
    match v with
    | .mapping entries => (entries.lookup key).bind fun inner => inner.find? names
    | _ => Option.none

/-- Two values are the same up to the order of the entries of mappings, at every depth. -/
inductive Rearranged : Value → Value → Prop
  | refl (v : Value) : Rearranged v v
  | mapping {entries entries' : List (String × Value)}
      (hkeys : (entries.map (·.1)).Perm (entries'.map (·.1)))
      (hvalues : ∀ key v v', entries.lookup key = some v → entries'.lookup key = some v' →
        Rearranged v v') : Rearranged (.mapping entries) (.mapping entries')

theorem find?_mapping_cons (entries : List (String × Value)) (key : String) (names : List String) :
    (mapping entries).find? (key :: names) =
      (entries.lookup key).bind fun inner => inner.find? names := rfl

theorem find?_cons_of_not_mapping {v : Value} (h : v.isMapping = false) (key : String)
    (names : List String) : v.find? (key :: names) = Option.none := by
  cases v <;> first | rfl | cases h

theorem exists_mapping_of_isMapping {v : Value} (h : v.isMapping = true) :
    ∃ entries, v = .mapping entries := by
  cases v <;> first | exact ⟨_, rfl⟩ | cases h

end Value

namespace Response

/-! ## Entries -/

section Entries

variable {key : String} {v : Value} {entries : List (String × Value)}

theorem lookup_entry (k : String) (u : Value) :
    ((k, u) :: entries).lookup key = if key = k then some u else entries.lookup key := by
  rw [List.lookup_cons]
  by_cases hk : key = k
  · rw [beq_iff_eq.mpr hk, if_pos hk]
  · rw [beq_false_of_ne hk, if_neg hk]

theorem mem_keys_iff : key ∈ entries.map (·.1) ↔ ∃ v, entries.lookup key = some v := by
  induction entries with
  | nil => simp
  | cons entry entries ih =>
      obtain ⟨k, u⟩ := entry
      rw [List.map_cons, List.mem_cons, lookup_entry, ih]
      by_cases hk : key = k
      · simp [hk]
      · simp [hk]

theorem lookup_set (k : String) :
    (set key v entries).lookup k = if k = key then some v else entries.lookup k := by
  induction entries with
  | nil => rw [set, lookup_entry]
  | cons entry entries ih =>
      obtain ⟨k', u⟩ := entry
      rw [set]
      by_cases hk' : k' = key
      · subst hk'
        rw [if_pos rfl, lookup_entry, lookup_entry]
        by_cases hk : k = k'
        · rw [if_pos hk, if_pos hk]
        · rw [if_neg hk, if_neg hk, if_neg hk]
      · rw [if_neg hk', lookup_entry, lookup_entry, ih]
        by_cases hk : k = k'
        · rw [if_pos hk, if_pos hk, if_neg (hk ▸ hk')]
        · rw [if_neg hk, if_neg hk]

/-- Setting a key keeps the keys, or adds one that was not there. -/
theorem keys_set :
    (set key v entries).map (·.1) =
      if key ∈ entries.map (·.1) then entries.map (·.1) else entries.map (·.1) ++ [key] := by
  induction entries with
  | nil => rfl
  | cons entry entries ih =>
      obtain ⟨k, u⟩ := entry
      rw [set]
      by_cases hk : k = key
      · simp [hk]
      · rw [if_neg hk, List.map_cons, ih]
        by_cases hkey : key ∈ entries.map (·.1)
        · simp [hkey]
        · simp [hkey, Ne.symm hk]

theorem nodup_keys_set (h : (entries.map (·.1)).Nodup) :
    ((set key v entries).map (·.1)).Nodup := by
  rw [keys_set]
  split
  · exact h
  · rename_i hkey
    exact List.nodup_append.mpr ⟨h, List.nodup_singleton key,
      fun k hk k' hk' heq => hkey (List.mem_singleton.mp hk' ▸ heq ▸ hk)⟩

/-- Setting a key to the value that it has changes nothing. -/
theorem set_of_lookup (h : entries.lookup key = some v) : set key v entries = entries := by
  induction entries with
  | nil => cases h
  | cons entry entries ih =>
      obtain ⟨k, u⟩ := entry
      rw [lookup_entry] at h
      rw [set]
      by_cases hk : k = key
      · rw [if_pos hk.symm] at h
        rw [if_pos hk, hk, Option.some.inj h]
      · rw [if_neg (Ne.symm hk)] at h
        rw [if_neg hk, ih h]

end Entries

/-! ## The tree of some requests -/

/-- Some entries are the tree of the requested paths: a key that is requested itself holds the value that
is shown there, a key that only leads on holds the tree of what is requested below it, and no key
is there twice or for nothing. -/
inductive IsTree : (List String → Except Fault Value) → (List String → Prop) →
    List (String × Value) → Prop
  | intro {shown : List String → Except Fault Value} {requested : List String → Prop}
      {entries : List (String × Value)}
      (hnodup : (entries.map (·.1)).Nodup)
      (hkey : ∀ key, (∃ v, entries.lookup key = some v) ↔ ∃ names, requested (key :: names))
      (hleaf : ∀ key v, requested [key] → entries.lookup key = some v → shown [key] = .ok v)
      (hnode : ∀ key v, ¬ requested [key] → entries.lookup key = some v → v.isMapping = true)
      (hbelow : ∀ key inner, ¬ requested [key] → entries.lookup key = some (.mapping inner) →
        IsTree (fun names => shown (key :: names)) (fun names => requested (key :: names)) inner) :
      IsTree shown requested entries

section Tree

variable {shown : List String → Except Fault Value} {requested requested' : List String → Prop}
  {entries entries' : List (String × Value)} {key : String}

theorem isTree_nil (h : ∀ key names, ¬ requested (key :: names)) : IsTree shown requested [] := by
  refine .intro List.nodup_nil (fun key => ?_) ?_ ?_ ?_
  · exact iff_of_false (by simp) (by simpa using h key)
  · intro key v _ hv
    cases hv
  · intro key v _ hv
    cases hv
  · intro key inner _ hv
    cases hv

/-- Setting a key to what the requests below it ask for makes the tree of these requests, if the requests
below other keys stay. -/
theorem IsTree.set (h : IsTree shown requested entries) {v : Value}
    (hothers : ∀ k names, k ≠ key → (requested' (k :: names) ↔ requested (k :: names)))
    (hsome : ∃ names, requested' (key :: names))
    (hhere : requested' [key] ∧ shown [key] = .ok v ∨
      ¬ requested' [key] ∧ ∃ inner, v = .mapping inner ∧
        IsTree (fun names => shown (key :: names)) (fun names => requested' (key :: names)) inner) :
    IsTree shown requested' (Response.set key v entries) := by
  obtain ⟨hnodup, hkey, hleaf, hnode, hbelow⟩ := h
  refine .intro (nodup_keys_set hnodup) ?_ ?_ ?_ ?_
  · intro k
    rw [lookup_set]
    by_cases hk : k = key
    · subst hk
      simp [hsome]
    · rw [if_neg hk, hkey k]
      exact exists_congr fun names => (hothers k names hk).symm
  · intro k u hrequested hu
    rw [lookup_set] at hu
    by_cases hk : k = key
    · subst hk
      obtain ⟨-, hshown⟩ := hhere.resolve_right fun hno => hno.1 hrequested
      rw [if_pos rfl] at hu
      rw [hshown, Option.some.inj hu]
    · rw [if_neg hk] at hu
      exact hleaf k u ((hothers k [] hk).mp hrequested) hu
  · intro k u hrequested hu
    rw [lookup_set] at hu
    by_cases hk : k = key
    · subst hk
      obtain ⟨-, inner, rfl, -⟩ := hhere.resolve_left fun hyes => hrequested hyes.1
      rw [if_pos rfl] at hu
      rw [← Option.some.inj hu]
      rfl
    · rw [if_neg hk] at hu
      exact hnode k u (fun hno => hrequested ((hothers k [] hk).mpr hno)) hu
  · intro k inner hrequested hinner
    rw [lookup_set] at hinner
    by_cases hk : k = key
    · subst hk
      obtain ⟨-, inner', rfl, hinner'⟩ := hhere.resolve_left fun hyes => hrequested hyes.1
      rw [if_pos rfl, Option.some.injEq, Value.mapping.injEq] at hinner
      exact hinner ▸ hinner'
    · rw [if_neg hk] at hinner
      rw [show (fun names => requested' (k :: names)) = fun names => requested (k :: names) from
        funext fun names => propext (hothers k names hk)]
      exact hbelow k inner (fun hno => hrequested ((hothers k [] hk).mpr hno)) hinner

/-- A path through a key that is not requested itself is added to what is requested below it. -/
theorem IsTree.set_mapping (h : IsTree shown requested entries) {path : List String}
    (hpath : path ≠ []) (hno : ¬ requested [key]) {inner : List (String × Value)}
    (hinner : IsTree (fun names => shown (key :: names))
      (fun names => requested (key :: names) ∨ names = path) inner) :
    IsTree shown (fun names => requested names ∨ names = key :: path)
      (Response.set key (.mapping inner) entries) := by
  refine h.set (fun k names hk => ?_) ⟨path, .inr rfl⟩ (.inr ⟨?_, inner, rfl, ?_⟩)
  · simp [hk]
  · rw [not_or, List.cons.injEq]
    exact ⟨hno, fun heq => hpath heq.2.symm⟩
  · simpa only [List.cons.injEq, true_and] using hinner

/-- A path through a key that is requested itself adds nothing. -/
theorem IsTree.of_requested (h : IsTree shown requested entries) (hrequested : requested [key])
    {v : Value} (hfound : entries.lookup key = some v) (path : List String) :
    IsTree shown (fun names => requested names ∨ names = key :: path) entries := by
  obtain ⟨-, -, hleaf, -, -⟩ := id h
  rw [← set_of_lookup hfound]
  refine h.set (fun k names hk => ?_) ⟨path, .inr rfl⟩
    (.inl ⟨.inl hrequested, hleaf key v hrequested hfound⟩)
  simp [hk]

/-- Putting the value at a path makes the tree of the requests with that path. -/
theorem IsTree.put (h : IsTree shown requested entries)
    (hplain : ∀ names v, requested names → shown names = .ok v → v.isMapping = false)
    (parents : List String) (leaf : String)
    (hput : Response.put entries parents leaf (shown (parents ++ [leaf])) = .ok entries') :
    IsTree shown (fun names => requested names ∨ names = parents ++ [leaf]) entries' := by
  -- the induction follows the keys of the path down to the mapping that holds its last key
  induction parents generalizing shown requested entries entries' with
  | nil =>
      rw [List.nil_append] at hput ⊢
      rw [Response.put] at hput
      obtain ⟨v, hv, rfl⟩ := Outcome.map_eq_ok.mp hput
      refine h.set (fun k names hk => ?_) ⟨[], .inr rfl⟩ (.inl ⟨.inr rfl, hv⟩)
      simp [hk]
  | cons key keys ih =>
      have hplain' : ∀ names v, requested (key :: names) → shown (key :: names) = .ok v →
          v.isMapping = false := fun names => hplain (key :: names)
      have hpath : keys ++ [leaf] ≠ [] := List.append_ne_nil_of_right_ne_nil keys nofun
      obtain ⟨hnodup, hkey, hleaf, hnode, hbelow⟩ := id h
      rw [Response.put] at hput
      split at hput
      · -- nothing is requested below the key yet
        rename_i habsent
        obtain ⟨inner, hinner, rfl⟩ := Outcome.map_eq_ok.mp hput
        have hnone (names : List String) : ¬ requested (key :: names) := by
          intro hrequested
          obtain ⟨v, hv⟩ := (hkey key).mpr ⟨names, hrequested⟩
          rw [habsent] at hv
          cases hv
        have hempty : IsTree (fun names => shown (key :: names))
            (fun names => requested (key :: names)) [] := isTree_nil fun k names => hnone (k :: names)
        exact h.set_mapping hpath (hnone []) (ih hempty hplain' hinner)
      · rename_i inner hfound
        obtain ⟨inner', hinner, rfl⟩ := Outcome.map_eq_ok.mp hput
        have hno : ¬ requested [key] := by
          intro hrequested
          cases hplain [key] _ hrequested (hleaf key _ hrequested hfound)
        exact h.set_mapping hpath hno (ih (hbelow key inner hno hfound) hplain' hinner)
      · -- the key is requested itself, and nothing is put below its value
        rename_i v hmapping hfound
        obtain rfl := Except.ok.inj hput
        have hrequested : requested [key] := by
          by_contra hno
          obtain ⟨inner, rfl⟩ := Value.exists_mapping_of_isMapping (hnode key v hno hfound)
          exact hmapping inner rfl
        exact h.of_requested hrequested hfound (keys ++ [leaf])

/-- Two trees of the same requests are the same up to the order of their entries. -/
theorem IsTree.rearranged (h : IsTree shown requested entries)
    (h' : IsTree shown requested entries') :
    Value.Rearranged (.mapping entries) (.mapping entries') := by
  induction h generalizing entries' with
  | @intro shown requested entries hnodup hkey hleaf hnode _ ih =>
      obtain ⟨hnodup', hkey', hleaf', hnode', hbelow'⟩ := h'
      refine .mapping ((List.perm_ext_iff_of_nodup hnodup hnodup').mpr fun key => ?_) ?_
      · rw [mem_keys_iff, mem_keys_iff, hkey, hkey']
      · intro key v v' hv hv'
        by_cases hrequested : requested [key]
        · have hshown := hleaf key v hrequested hv
          rw [hleaf' key v' hrequested hv'] at hshown
          rw [Except.ok.inj hshown]
          exact .refl v
        · obtain ⟨inner, rfl⟩ := Value.exists_mapping_of_isMapping (hnode key v hrequested hv)
          obtain ⟨inner', rfl⟩ := Value.exists_mapping_of_isMapping (hnode' key v' hrequested hv')
          exact ih key inner hrequested hv (hbelow' key inner' hrequested hv')

/-! ## Following the keys of a tree -/

/-- A path is requested, and no other requested one begins it. -/
def IsOutermost (requested : List String → Prop) (names : List String) : Prop :=
  requested names ∧ ∀ other, requested other → other <+: names → other = names

/-- Behind a key that is not requested itself, the outermost paths are those of the requests below the
key. -/
theorem isOutermost_cons_iff (hnil : ¬ requested []) {names : List String} (hkey : ¬ requested [key]) :
    IsOutermost requested (key :: names) ↔
      IsOutermost (fun names => requested (key :: names)) names := by
  constructor
  · rintro ⟨hrequested, hfirst⟩
    refine ⟨hrequested, fun other hother hprefix => ?_⟩
    exact List.tail_eq_of_cons_eq (hfirst _ hother ((List.prefix_cons_inj key).mpr hprefix))
  · rintro ⟨hrequested, hfirst⟩
    refine ⟨hrequested, fun other hother hprefix => ?_⟩
    cases other with
    | nil => exact absurd hother hnil
    | cons k other =>
        obtain ⟨rfl, hrest⟩ := List.cons_prefix_cons.mp hprefix
        rw [hfirst other hother hrest]

/-- A key that is requested itself is an outermost path, and the only one that it begins. -/
theorem isOutermost_cons_of_requested (hnil : ¬ requested []) {names : List String}
    (hkey : requested [key]) : IsOutermost requested (key :: names) ↔ names = [] := by
  constructor
  · rintro ⟨-, hfirst⟩
    exact (List.tail_eq_of_cons_eq (hfirst [key] hkey (by simp))).symm
  · rintro rfl
    refine ⟨hkey, fun other hother hprefix => ?_⟩
    cases other with
    | nil => exact absurd hother hnil
    | cons k other =>
        obtain ⟨rfl, hrest⟩ := List.cons_prefix_cons.mp hprefix
        rw [List.prefix_nil.mp hrest]

variable (hnil : ¬ requested [])
  (hplain : ∀ names v, requested names → shown names = .ok v → v.isMapping = false)

include hnil hplain

/-- What stands at some keys is the value that is shown there exactly if the keys are an outermost
path, unless it is a mapping. -/
theorem IsTree.find?_eq_some_iff (h : IsTree shown requested entries) {names : List String}
    {v : Value} (hv : v.isMapping = false) :
    (Value.mapping entries).find? names = some v ↔
      IsOutermost requested names ∧ shown names = .ok v := by
  induction names generalizing shown requested entries with
  | nil =>
      refine iff_of_false ?_ fun hyes => hnil hyes.1.1
      intro hself
      rw [← Option.some.inj hself] at hv
      cases hv
  | cons key names ih =>
      obtain ⟨-, hkey, hleaf, hnode, hbelow⟩ := id h
      rw [Value.find?_mapping_cons, Option.bind_eq_some_iff]
      by_cases hrequested : requested [key]
      · rw [isOutermost_cons_of_requested hnil hrequested]
        obtain ⟨u, hu⟩ := (hkey key).mpr ⟨[], hrequested⟩
        have hshown := hleaf key u hrequested hu
        have hatom := hplain [key] u hrequested hshown
        cases names with
        | nil => simp [hu, hshown, Value.find?]
        | cons next names => simp [hu, Value.find?_cons_of_not_mapping hatom]
      · rw [isOutermost_cons_iff hnil hrequested]
        cases hu : entries.lookup key with
        | none =>
            refine iff_of_false (by simp) ?_
            rintro ⟨⟨hyes, -⟩, -⟩
            obtain ⟨u, hu'⟩ := (hkey key).mpr ⟨names, hyes⟩
            rw [hu] at hu'
            cases hu'
        | some u =>
            obtain ⟨inner, rfl⟩ := Value.exists_mapping_of_isMapping (hnode key u hrequested hu)
            have hinner := @ih (fun names => shown (key :: names)) (fun names => requested (key :: names))
              inner hrequested (fun names => hplain (key :: names)) (hbelow key inner hrequested hu)
            rw [← hinner]
            simp

omit hplain in
/-- A tree is there only if the record shows something at every outermost path. -/
theorem IsTree.exists_shown (h : IsTree shown requested entries) {names : List String}
    (hnames : IsOutermost requested names) : ∃ v, shown names = .ok v := by
  induction names generalizing shown requested entries with
  | nil => exact absurd hnames.1 hnil
  | cons key names ih =>
      obtain ⟨-, hkey, hleaf, hnode, hbelow⟩ := h
      obtain ⟨u, hu⟩ := (hkey key).mpr ⟨names, hnames.1⟩
      by_cases hrequested : requested [key]
      · obtain rfl := (isOutermost_cons_of_requested hnil hrequested).mp hnames
        exact ⟨u, hleaf key u hrequested hu⟩
      · obtain ⟨inner, rfl⟩ := Value.exists_mapping_of_isMapping (hnode key u hrequested hu)
        exact ih hrequested (hbelow key inner hrequested hu)
          ((isOutermost_cons_iff hnil hrequested).mp hnames)

omit hplain in
/-- Every key of a tree begins an outermost path. -/
theorem IsTree.exists_isOutermost (h : IsTree shown requested entries) {v : Value}
    (hv : entries.lookup key = some v) : ∃ names, IsOutermost requested (key :: names) := by
  induction h generalizing key v with
  | @intro shown requested entries _ hkey _ hnode hbelow ih =>
      by_cases hrequested : requested [key]
      · exact ⟨[], (isOutermost_cons_of_requested hnil hrequested).mpr rfl⟩
      · obtain ⟨inner, rfl⟩ := Value.exists_mapping_of_isMapping (hnode key v hrequested hv)
        obtain ⟨names, hnames⟩ := (hkey key).mp ⟨_, hv⟩
        obtain ⟨next, names, rfl⟩ := List.exists_cons_of_ne_nil
          (show names ≠ [] from fun hempty => hrequested (hempty ▸ hnames))
        obtain ⟨-, hkey', -, -, -⟩ := hbelow key inner hrequested hv
        obtain ⟨u, hu⟩ := (hkey' next).mpr ⟨names, hnames⟩
        obtain ⟨names', hnames'⟩ := ih key inner hrequested hv hrequested hu
        exact ⟨next :: names', (isOutermost_cons_iff hnil hrequested).mpr hnames'⟩

/-- Whatever keys lead to lies on the way along an outermost path, and a mapping among it has no key
twice. -/
theorem IsTree.of_find?_eq_some (h : IsTree shown requested entries) {names : List String}
    (hnames : names ≠ []) {v : Value} (hv : (Value.mapping entries).find? names = some v) :
    (∃ path, IsOutermost requested path ∧ names <+: path) ∧
      ∀ inner, v = .mapping inner → inner ≠ [] ∧ (inner.map (·.1)).Nodup := by
  induction names generalizing shown requested entries with
  | nil => exact absurd rfl hnames
  | cons key names ih =>
      rw [Value.find?_mapping_cons] at hv
      obtain ⟨u, hu, hv⟩ := Option.bind_eq_some_iff.mp hv
      obtain ⟨path, hpath⟩ := h.exists_isOutermost hnil hu
      obtain ⟨-, hkey, hleaf, hnode, hbelow⟩ := h
      by_cases hrequested : requested [key]
      · have hatom := hplain [key] u hrequested (hleaf key u hrequested hu)
        cases names with
        | nil =>
            obtain rfl := Option.some.inj hv
            refine ⟨⟨key :: path, hpath, by simp⟩, ?_⟩
            rintro inner rfl
            cases hatom
        | cons next names =>
            rw [Value.find?_cons_of_not_mapping hatom] at hv
            cases hv
      · obtain ⟨inner, rfl⟩ := Value.exists_mapping_of_isMapping (hnode key u hrequested hu)
        have hinner := hbelow key inner hrequested hu
        cases names with
        | nil =>
            obtain rfl := Option.some.inj hv
            refine ⟨⟨key :: path, hpath, by simp⟩, ?_⟩
            rintro inner' heq
            obtain rfl := Value.mapping.inj heq
            obtain ⟨hnodup, hkey', -, -, -⟩ := hinner
            refine ⟨?_, hnodup⟩
            rintro rfl
            obtain ⟨rest, hrest⟩ := (hkey key).mp ⟨_, hu⟩
            obtain ⟨next, rest, rfl⟩ := List.exists_cons_of_ne_nil
              (show rest ≠ [] from fun hempty => hrequested (hempty ▸ hrest))
            obtain ⟨_, hnone⟩ := (hkey' next).mpr ⟨rest, hrest⟩
            cases hnone
        | cons next names =>
            obtain ⟨⟨path', hpath', hprefix⟩, hmapping⟩ :=
              ih hrequested (fun names => hplain (key :: names)) hinner (List.cons_ne_nil _ _) hv
            exact ⟨⟨key :: path', (isOutermost_cons_iff hnil hrequested).mpr hpath',
              (List.prefix_cons_inj key).mpr hprefix⟩, hmapping⟩

end Tree

/-! ## Requests one after the other -/

section Requests

variable {read : Value.Reader} {record : Value} {paths paths' : List String}
  {requested : List String → Prop} {entries entries' : List (String × Value)} {fault : Fault}

/-- What a record shows at the keys of a path. -/
def shownAt (read : Value.Reader) (record : Value) (names : List String) : Except Fault Value :=
  (record.steps read names).serialize

/-- The keys of one of some paths. -/
def Requests (paths : List String) (names : List String) : Prop :=
  ∃ path ∈ paths, split '.' path = names

/-- Paths may be requested in another order, and more than once. -/
theorem requests_congr (h : ∀ path, path ∈ paths' ↔ path ∈ paths) :
    Requests paths' = Requests paths := by
  funext names
  exact propext (exists_congr fun path => and_congr_left' (h path))

theorem not_requests_nil (paths : List String) : ¬ Requests paths [] := by
  rintro ⟨path, -, hpath⟩
  exact split_ne_nil '.' path hpath

/-- Adding a path puts what is shown there at the last of its keys. -/
theorem addPath_eq (read : Value.Reader) (record : Value) (entries : List (String × Value))
    (path : String) : ∃ parents leaf, split '.' path = parents ++ [leaf] ∧
      addPath read record entries path =
        put entries parents leaf (shownAt read record (parents ++ [leaf])) := by
  have hkeys := split_ne_nil '.' path
  have hsplit := List.dropLast_append_getLast hkeys
  refine ⟨(split '.' path).dropLast, (split '.' path).getLast hkeys, hsplit.symm, ?_⟩
  rw [hsplit, shownAt, addPath, List.getLast?_eq_some_getLast hkeys, Option.getD_some, Value.atPath]

/-- Nothing but the value itself keeps it from being put somewhere. -/
theorem eq_error_of_put {parents : List String} {leaf : String} {r : Except Fault Value}
    (h : put entries parents leaf r = .error fault) : r = .error fault := by
  induction parents generalizing entries with
  | nil =>
      rw [put] at h
      exact Outcome.map_eq_error.mp h
  | cons key keys ih =>
      rw [put] at h
      split at h
      · exact ih (Outcome.map_eq_error.mp h)
      · exact ih (Outcome.map_eq_error.mp h)
      · cases h

/-- A response fails only where something that is requested cannot be shown. -/
theorem exists_of_addPaths_error (h : paths.foldlM (addPath read record) entries = .error fault) :
    ∃ path ∈ paths, (record.atPath read path).serialize = .error fault := by
  induction paths generalizing entries with
  | nil => cases h
  | cons path paths ih =>
      rw [List.foldlM_cons] at h
      rcases Outcome.bind_eq_error.mp h with h | ⟨entries', -, h⟩
      · exact ⟨path, List.mem_cons_self, eq_error_of_put h⟩
      · obtain ⟨other, hother, hfails⟩ := ih h
        exact ⟨other, List.mem_cons_of_mem path hother, hfails⟩

/-- Paths that are added one after the other make the tree of the requests with all of them. -/
theorem IsTree.addPaths (h : IsTree (shownAt read record) requested entries)
    (hplain : ∀ names v, requested names ∨ Requests paths names →
      shownAt read record names = .ok v → v.isMapping = false)
    (hadd : paths.foldlM (addPath read record) entries = .ok entries') :
    IsTree (shownAt read record) (fun names => requested names ∨ Requests paths names) entries' := by
  induction paths generalizing requested entries with
  | nil =>
      obtain rfl := Except.ok.inj hadd
      simpa [Requests] using h
  | cons path paths ih =>
      rw [List.foldlM_cons] at hadd
      obtain ⟨next, hnext, hadd⟩ := Outcome.bind_eq_ok.mp hadd
      obtain ⟨parents, leaf, hpath, hput⟩ := addPath_eq read record entries path
      have hsplit (names : List String) : (requested names ∨ names = parents ++ [leaf]) ∨
          Requests paths names ↔ requested names ∨ Requests (path :: paths) names := by
        simp only [Requests, List.exists_mem_cons_iff, hpath, or_assoc, eq_comm (a := names)]
      have hstep := h.put (fun names v hrequested => hplain names v (.inl hrequested)) parents leaf
        (hput ▸ hnext)
      have htree := ih hstep (fun names v hrequested => hplain names v ((hsplit names).mp hrequested))
        hadd
      simpa only [hsplit] using htree

def Outermost (paths : List String) (path : String) : Prop :=
  path ∈ paths ∧ ∀ other ∈ paths, split '.' other <+: split '.' path →
    split '.' other = split '.' path

theorem isOutermost_requests_iff {names : List String} :
    IsOutermost (Requests paths) names ↔ ∃ path, Outermost paths path ∧ split '.' path = names := by
  constructor
  · rintro ⟨⟨path, hpath, rfl⟩, hfirst⟩
    exact ⟨path, ⟨hpath, fun other hother => hfirst _ ⟨other, hother, rfl⟩⟩, rfl⟩
  · rintro ⟨path, ⟨hpath, hfirst⟩, rfl⟩
    refine ⟨⟨path, hpath, rfl⟩, ?_⟩
    rintro _ ⟨other, hother, rfl⟩
    exact hfirst other hother

/-- A value is the tree whose leaves are the outermost paths: each leaf holds what the record shows there,
whatever is no mapping is a leaf, every key lies on the way to one, and no mapping is empty, unless
nothing is requested, or has a key twice. -/
structure IsTreeOf (read : Value.Reader) (record : Value) (paths : List String) (v : Value) :
    Prop where
  mapping : v.isMapping = true
  leaf : ∀ path, Outermost paths path →
    ∃ u, v.find? (split '.' path) = some u ∧ (record.atPath read path).serialize = .ok u
  outermost : ∀ names u, v.find? names = some u → u.isMapping = false →
    ∃ path, Outermost paths path ∧ split '.' path = names
  leads : ∀ names u, names ≠ [] → v.find? names = some u →
    ∃ path, Outermost paths path ∧ names <+: split '.' path
  filled : ∀ names inner, names ≠ [] → v.find? names = some (.mapping inner) → inner ≠ []
  distinct : ∀ names inner, v.find? names = some (.mapping inner) → (inner.map (·.1)).Nodup

theorem IsTree.isTreeOf (h : IsTree (shownAt read record) (Requests paths) entries)
    (hplain : ∀ names v, Requests paths names → shownAt read record names = .ok v →
      v.isMapping = false) : IsTreeOf read record paths (.mapping entries) := by
  have hnil := not_requests_nil paths
  refine ⟨rfl, ?_, ?_, ?_, ?_, ?_⟩
  · intro path hpath
    have houtermost := isOutermost_requests_iff.mpr ⟨path, hpath, rfl⟩
    obtain ⟨u, hu⟩ := h.exists_shown hnil houtermost
    exact ⟨u, (h.find?_eq_some_iff hnil hplain (hplain _ _ houtermost.1 hu)).mpr ⟨houtermost, hu⟩, hu⟩
  · intro names u hu hatom
    exact isOutermost_requests_iff.mp ((h.find?_eq_some_iff hnil hplain hatom).mp hu).1
  · intro names u hnames hu
    obtain ⟨⟨path, hpath, hprefix⟩, -⟩ := h.of_find?_eq_some hnil hplain hnames hu
    obtain ⟨path, houtermost, rfl⟩ := isOutermost_requests_iff.mp hpath
    exact ⟨path, houtermost, hprefix⟩
  · intro names inner hnames hinner
    exact ((h.of_find?_eq_some hnil hplain hnames hinner).2 inner rfl).1
  · intro names inner hinner
    cases names with
    | nil =>
        obtain ⟨hnodup, -, -, -, -⟩ := h
        obtain rfl := Value.mapping.inj (Option.some.inj hinner)
        exact hnodup
    | cons key names =>
        exact ((h.of_find?_eq_some hnil hplain (List.cons_ne_nil _ _) hinner).2 inner rfl).2

/-- A response that is there is the tree of what was requested. -/
theorem isTree_of_nested (hrecord : record.isNone = false)
    (hplain : ∀ names v, Requests paths names → shownAt read record names = .ok v →
      v.isMapping = false) {v : Value} (h : nested read record paths = .ok v) :
    ∃ entries, v = .mapping entries ∧
      IsTree (shownAt read record) (Requests paths) entries := by
  rw [nested, hrecord, if_neg Bool.false_ne_true] at h
  obtain ⟨entries, hadd, rfl⟩ := Outcome.map_eq_ok.mp h
  have hempty : IsTree (shownAt read record) (fun _ => False) [] := isTree_nil fun _ _ => id
  have htree := hempty.addPaths (fun names v hnames => hplain names v (hnames.resolve_left id)) hadd
  refine ⟨entries, rfl, ?_⟩
  simpa only [false_or] using htree

theorem exists_nested (hshown : ∀ path ∈ paths, ∃ v, (record.atPath read path).serialize = .ok v) :
    ∃ v, nested read record paths = .ok v := by
  cases h : nested read record paths with
  | ok v => exact ⟨v, rfl⟩
  | error fault =>
      rw [nested] at h
      split at h
      · cases h
      · obtain ⟨path, hpath, hfails⟩ := exists_of_addPaths_error (Outcome.map_eq_error.mp h)
        obtain ⟨v, hv⟩ := hshown path hpath
        rw [hfails] at hv
        cases hv

/-- The nested response of a record depends only on the set of the requested paths.  If no value that is
shown is a mapping itself, the response is the tree whose leaves are the outermost of these paths, and
requests of the same paths in another order, or of some of them twice, give the same mappings up to the
order of their entries.  It is there if every value can be shown, and where some cannot, it is still
this tree whenever it is there. -/
theorem nested_isTreeOf (hrecord : record.isNone = false)
    (hplain : ∀ path ∈ paths, ∀ v, (record.atPath read path).serialize = .ok v →
      v.isMapping = false)
    (hsame : ∀ path, path ∈ paths' ↔ path ∈ paths) :
    ((∀ path ∈ paths, ∃ v, (record.atPath read path).serialize = .ok v) →
      ∃ v v', nested read record paths = .ok v ∧ nested read record paths' = .ok v' ∧
        IsTreeOf read record paths v ∧ Value.Rearranged v v') ∧
    ∀ v, nested read record paths = .ok v → IsTreeOf read record paths v ∧
      ∀ v', nested read record paths' = .ok v' → Value.Rearranged v v' := by
  have hatoms : ∀ names v, Requests paths names → shownAt read record names = .ok v →
      v.isMapping = false := by
    rintro _ v ⟨path, hpath, rfl⟩
    exact hplain path hpath v
  have hresult : ∀ v, nested read record paths = .ok v → IsTreeOf read record paths v ∧
      ∀ v', nested read record paths' = .ok v' → Value.Rearranged v v' := by
    intro v hv
    obtain ⟨entries, rfl, htree⟩ := isTree_of_nested hrecord hatoms hv
    refine ⟨htree.isTreeOf hatoms, fun v' hv' => ?_⟩
    rw [← requests_congr hsame] at hatoms htree
    obtain ⟨entries', rfl, htree'⟩ := isTree_of_nested hrecord hatoms hv'
    exact htree.rearranged htree'
  refine ⟨fun hshown => ?_, hresult⟩
  obtain ⟨v, hv⟩ := exists_nested hshown
  obtain ⟨v', hv'⟩ := exists_nested fun path hpath => hshown path ((hsame path).mp hpath)
  obtain ⟨htree, hrearranged⟩ := hresult v hv
  exact ⟨v, v', hv, hv', htree, hrearranged v' hv'⟩

/-- A post with its author, who is shown by a key. -/
def post : Value :=
  .record (.own 0) "Post" [("id", .int 1),
    ("author", .record (.own 1) "Person" [("pk", .text "P7"), ("name", .text "Ada")])]

/-- The author as a whole takes the place of the author's name, and the name is not put below the author
afterwards. -/
theorem nested_isTreeOf_author :
    IsTreeOf Value.readAttribute post ["author.name", "id", "author", "author.name"]
        (.mapping [("author", .text "P7"), ("id", .int 1)]) ∧
      Value.Rearranged (.mapping [("author", .text "P7"), ("id", .int 1)])
        (.mapping [("id", .int 1), ("author", .text "P7")]) := by
  have hshown : ∀ path ∈ ["author.name", "id", "author", "author.name"],
      ∃ v, (post.atPath Value.readAttribute path).serialize = .ok v ∧ v.isMapping = false := by
    intro path hpath
    simp only [List.mem_cons, List.not_mem_nil, or_false] at hpath
    rcases hpath with rfl | rfl | rfl | rfl
    · exact ⟨.text "Ada", by cbv, rfl⟩
    · exact ⟨.int 1, by cbv, rfl⟩
    · exact ⟨.text "P7", by cbv, rfl⟩
    · exact ⟨.text "Ada", by cbv, rfl⟩
  have hplain : ∀ path ∈ ["author.name", "id", "author", "author.name"],
      ∀ v, (post.atPath Value.readAttribute path).serialize = .ok v → v.isMapping = false := by
    intro path hpath v hv
    obtain ⟨u, hu, hatom⟩ := hshown path hpath
    rw [hu] at hv
    exact Except.ok.inj hv ▸ hatom
  have hsame : ∀ path, path ∈ ["id", "author", "author.name"] ↔
      path ∈ ["author.name", "id", "author", "author.name"] := by
    intro path
    simp only [List.mem_cons, List.not_mem_nil, or_false]
    tauto
  obtain ⟨htree, hrearranged⟩ := (nested_isTreeOf rfl hplain hsame).2
    (.mapping [("author", .text "P7"), ("id", .int 1)]) (by cbv)
  exact ⟨htree, hrearranged (.mapping [("id", .int 1), ("author", .text "P7")]) (by cbv)⟩

end Requests

end Response
end PageQuery
