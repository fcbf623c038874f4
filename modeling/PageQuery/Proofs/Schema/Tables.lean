import Mathlib
import PageQuery.Predicate.Build
import PageQuery.Proofs.Schema.Introspection

/-!
# What tables, paths and parsers give

A table finds the fields that it was made of, and nothing else.  A path that is resolved has walked
along its segments to the end or to the first collection.  A parser that reads a text gives a value
of its own kind.
-/

namespace PageQuery

/-! ## Tables -/

theorem Table.mem_put {key : String} {f : Field} {entries : List (String × Field)}
    {e : String × Field} (h : e ∈ put key f entries) : e.2 = f ∨ e ∈ entries := by
  induction entries with
  | nil =>
      obtain rfl := List.mem_singleton.mp h
      exact .inl rfl
  | cons entry entries ih =>
      rw [put] at h
      split at h
      · exact (List.mem_cons.mp h).imp (fun heq => by rw [heq]) (List.mem_cons_of_mem _)
      · rcases List.mem_cons.mp h with rfl | hmem
        · exact .inr List.mem_cons_self
        · exact (ih hmem).imp_right (List.mem_cons_of_mem _)

theorem Table.mem_foldl_insert {fields : List Field} {t : Table} {e : String × Field}
    (h : e ∈ (fields.foldl insert t).entries) : e.2 ∈ fields ∨ e ∈ t.entries := by
  induction fields generalizing t with
  | nil => exact .inr h
  | cons field fields ih =>
      rcases ih h with hmem | hmem
      · exact .inl (List.mem_cons_of_mem _ hmem)
      · exact (mem_put hmem).imp_left fun heq => by simp [heq]

/-- What a table finds is one of the fields that it was made of. -/
theorem Table.mem_of_find? {fields : List Field} {name : String} {f : Field}
    (h : (ofFields fields).find? name = some f) : f ∈ fields := by
  rw [find?, List.lookup_eq_some_iff] at h
  obtain ⟨before, after, heq, -⟩ := h
  have hentry : (Text.lower name, f) ∈ (fields.foldl insert {}).entries := by
    rw [← ofFields, heq]
    simp
  rcases mem_foldl_insert hentry with hmem | hmem
  · exact hmem
  · cases hmem

theorem Table.key_of_mem_put {key : String} {f : Field} {entries : List (String × Field)}
    (hkey : key = Text.lower f.name) (hentries : ∀ e ∈ entries, e.1 = Text.lower e.2.name) :
    ∀ e ∈ put key f entries, e.1 = Text.lower e.2.name := by
  induction entries with
  | nil => simp [put, hkey]
  | cons entry entries ih =>
      obtain ⟨hentry, hrest⟩ := List.forall_mem_cons.mp hentries
      rw [put]
      split
      · exact List.forall_mem_cons.mpr ⟨hkey, hrest⟩
      · exact List.forall_mem_cons.mpr ⟨hentry, ih hrest⟩

theorem Table.key_of_mem_foldl_insert {fields : List Field} {t : Table}
    (ht : ∀ e ∈ t.entries, e.1 = Text.lower e.2.name) :
    ∀ e ∈ (fields.foldl insert t).entries, e.1 = Text.lower e.2.name := by
  induction fields generalizing t with
  | nil => exact ht
  | cons field fields ih => exact ih (key_of_mem_put rfl ht)

/-- What a table finds has the name that was looked for, letter case aside. -/
theorem Table.lower_name_of_find? {fields : List Field} {name : String} {f : Field}
    (h : (ofFields fields).find? name = some f) : Text.lower f.name = Text.lower name := by
  rw [find?, List.lookup_eq_some_iff] at h
  obtain ⟨before, after, heq, -⟩ := h
  have hentry : (Text.lower name, f) ∈ (fields.foldl insert {}).entries := by
    rw [← ofFields, heq]
    simp
  exact (key_of_mem_foldl_insert (by simp) _ hentry).symm

theorem Field.name_ofSingle {c : Catalogue} {name : String} {h : Hint} {f : Field}
    (hf : ofSingle c name h = .ok f) : f.name = name := by
  rw [ofSingle] at hf
  split at hf
  · rw [← Except.ok.inj hf]
  · split at hf
    · rw [← Except.ok.inj hf]
    · cases hf

theorem Field.name_ofHint {c : Catalogue} {name : String} {h : Hint} {f : Field}
    (hf : ofHint c name h = .ok f) : f.name = name := by
  rw [ofHint] at hf
  split at hf
  · rw [← Except.ok.inj hf]
    rfl
  · exact name_ofSingle hf

theorem Field.name_ofModelField? {c : Catalogue} {name : String} {g : ModelField} {f : Field}
    (h : ofModelField? c name g = some f) : f.name = name := by
  cases g with
  | toAny => cases h
  | column type choices default =>
      obtain rfl := Option.some.inj h
      rw [ofColumn]
      split
      · rfl
      · split <;> rfl
  | toOne | ownerOf | ownersOf | linked | linkedFrom =>
      obtain rfl := Option.some.inj h
      rfl

/-! ## Paths -/

/-- A path that is resolved has the fields of a walk along its segments, to the end or to the first
collection. -/
theorem Context.walk_of_resolve {x : Context} {root : TypeRef} {path : Option String}
    {p : ResolvedPath} (h : x.resolve root path = .ok p) :
    ∃ segments, splitPath path = .ok segments ∧ p.chain = (walk x.table root segments).fields ∧
      ((walk x.table root segments).stop = .complete ∨
        ∃ rest, (walk x.table root segments).stop = .collection rest) := by
  obtain ⟨segments, hsplit, h⟩ := Outcome.bind_eq_ok.mp h
  obtain ⟨limit, -, h⟩ := Outcome.bind_eq_ok.mp h
  obtain ⟨-, -, h⟩ := Outcome.bind_eq_ok.mp h
  refine ⟨segments, Outcome.mapError_eq_ok.mp hsplit, ?_⟩
  rw [Context.resolveSegments] at h
  dsimp only at h
  split at h
  · rename_i hstop
    exact ⟨by rw [← Except.ok.inj h], .inl hstop⟩
  · cases h
  · cases h
  · rename_i hstop
    exact ⟨by rw [← Except.ok.inj h], .inr ⟨_, hstop⟩⟩
  · rename_i hstop
    exact ⟨by rw [← Except.ok.inj h], .inr ⟨_, hstop⟩⟩
  · cases h
  · cases h

/-- A path that is resolved has segments, and the fields of a walk along them. -/
theorem Context.chain_of_resolve {x : Context} {root : TypeRef} {path : Option String}
    {p : ResolvedPath} (h : x.resolve root path = .ok p) :
    ∃ segments, segments ≠ [] ∧ p.chain = (walk x.table root segments).fields ∧
      ((walk x.table root segments).stop = .complete ∨
        ∃ rest, (walk x.table root segments).stop = .collection rest) := by
  obtain ⟨segments, hsplit, hwalk⟩ := walk_of_resolve h
  refine ⟨segments, ?_, hwalk⟩
  rintro rfl
  rw [splitPath] at hsplit
  split at hsplit
  · cases hsplit
  · exact absurd (Except.ok.inj hsplit) ‹_›

/-- Every field of a walk was found in some table for one of the segments. -/
theorem exists_of_mem_walk {tables : TypeRef → Except Fault Table} {t : TypeRef}
    {segments : List String} {f : Field} (h : f ∈ (walk tables t segments).fields) :
    ∃ u, ∃ segment ∈ segments, (tables u).map (·.find? segment) = .ok (some f) := by
  induction segments generalizing t with
  | nil => cases h
  | cons segment rest ih =>
      rw [walk] at h
      split at h
      · cases h
      · cases h
      · rename_i g hfound
        -- The field at the head is the one found here; those behind it are found on the way.
        have hhead : f = g → ∃ u, ∃ s ∈ segment :: rest, (tables u).map (·.find? s) = .ok (some f) :=
          fun hf => ⟨t, segment, List.mem_cons_self, hf ▸ hfound⟩
        split at h
        · exact hhead (List.mem_singleton.mp h)
        · split at h
          · exact hhead (List.mem_singleton.mp h)
          · exact hhead (List.mem_singleton.mp h)
          · rcases List.mem_cons.mp h with hf | h
            · exact hhead hf
            · obtain ⟨u, s, hs, hu⟩ := ih h
              exact ⟨u, s, List.mem_cons_of_mem segment hs, hu⟩

/-! ## Parsers -/

theorem Field.convert_eq_ok {f : Field} {raw : String} {path : Option String} {v : Value}
    (h : f.convert raw path = .ok v) : ∃ p, f.parser = some p ∧ p.run raw = .ok v := by
  simp only [convert] at h
  split at h
  · cases h
  · rename_i p hp
    split at h
    · rename_i w hw
      obtain rfl := Except.ok.inj h
      exact ⟨p, hp, hw⟩
    · cases h

theorem Parser.exists_of_orBadValue {v : Option Value} {w : Value} (h : orBadValue v = .ok w) :
    v = some w := by
  cases v with
  | none => cases h
  | some v => exact congrArg some (Except.ok.inj h)

theorem Parser.exists_of_ofReading {α : Type} {wrap : α → Value} {u : Unreadable} {r : Reading α}
    {v : Value} (h : ofReading wrap u r = .ok v) : ∃ a, v = wrap a := by
  cases r with
  | value a => exact ⟨a, (Except.ok.inj h).symm⟩
  | impossible => cases h
  | unreadable => cases h

section Searching

variable {α : Type} {test : α → Except Fault Bool} {xs : List α} {x : α} {f : Fault}

theorem Parser.search_eq_some : search test xs = .ok (some x) ↔
    ∃ before after, xs = before ++ x :: after ∧ test x = .ok true ∧ ∀ y ∈ before, test y = .ok false := by
  induction xs with
  | nil => simp [search]
  | cons y rest ih =>
      rw [search]
      cases hy : test y with
      | error f =>
          refine iff_of_false (by simp) ?_
          rintro ⟨before, after, hxs, hx, hbefore⟩
          cases before with
          | nil => simp_all
          | cons z before => simp_all
      | ok found =>
          cases found with
          | true =>
              constructor
              · intro h
                obtain rfl : y = x := by simpa using h
                exact ⟨[], rest, rfl, hy, nofun⟩
              · rintro ⟨before, after, hxs, hx, hbefore⟩
                cases before with
                | nil => simp_all
                | cons z before => simp_all
          | false =>
              rw [ih]
              constructor
              · rintro ⟨before, after, rfl, hx, hbefore⟩
                exact ⟨y :: before, after, rfl, hx, List.forall_mem_cons.mpr ⟨hy, hbefore⟩⟩
              · rintro ⟨before, after, hxs, hx, hbefore⟩
                cases before with
                | nil => simp_all
                | cons z before =>
                    obtain ⟨rfl, rfl⟩ := List.cons.inj hxs
                    exact ⟨before, after, rfl, hx, (List.forall_mem_cons.mp hbefore).2⟩

theorem Parser.search_eq_error : search test xs = .error f ↔
    ∃ before x after, xs = before ++ x :: after ∧ test x = .error f ∧ ∀ y ∈ before, test y = .ok false := by
  induction xs with
  | nil => simp [search]
  | cons y rest ih =>
      rw [search]
      cases hy : test y with
      | error g =>
          constructor
          · intro h
            exact ⟨[], y, rest, rfl, hy.trans (by simpa using h), nofun⟩
          · rintro ⟨before, x, after, hxs, hx, hbefore⟩
            cases before <;> simp_all
      | ok found =>
          cases found with
          | true =>
              refine iff_of_false (by simp) ?_
              rintro ⟨before, x, after, hxs, hx, hbefore⟩
              cases before <;> simp_all
          | false =>
              rw [ih]
              constructor
              · rintro ⟨before, x, after, rfl, hx, hbefore⟩
                exact ⟨y :: before, x, after, rfl, hx, List.forall_mem_cons.mpr ⟨hy, hbefore⟩⟩
              · rintro ⟨before, x, after, hxs, hx, hbefore⟩
                cases before with
                | nil => simp_all
                | cons z before =>
                    obtain ⟨rfl, rfl⟩ := List.cons.inj hxs
                    exact ⟨before, x, after, rfl, hx, (List.forall_mem_cons.mp hbefore).2⟩

end Searching

theorem Parser.displays_eq_error {wanted : String} {v : Value} {f : Fault}
    (h : displays wanted v = .error f) : f = .badValue := by
  obtain h := Outcome.map_eq_error.mp h
  rw [Value.writePlain] at h
  split at h
  · cases h
  · exact (Except.error.inj h).symm

theorem Parser.exists_of_readChoice {options : List (Value × Value)} {raw : String} {v : Value}
    (h : readChoice options raw = .ok v) : ∃ o ∈ options, v = o.1 := by
  rw [readChoice] at h
  split at h
  · rename_i o ho
    obtain ⟨before, after, rfl, -, -⟩ := search_eq_some.mp ho
    exact ⟨o, by simp, (Except.ok.inj h).symm⟩
  · cases h
  · cases h

theorem Enumeration.mem_of_mem_distinctMembers {e : Enumeration} {m : String × Value}
    (h : m ∈ e.distinctMembers) : m ∈ e.members := by
  have hfold : ∀ members kept : List (String × Value), m ∈ members.foldl
      (fun kept m => if kept.any fun k => sameValue k.2 m.2 then kept else kept ++ [m]) kept →
      m ∈ kept ∨ m ∈ members := by
    intro members
    induction members with
    | nil => exact fun kept hm => .inl hm
    | cons next members ih =>
        intro kept hm
        rcases ih _ hm with hm | hm
        · dsimp only at hm
          split at hm
          · exact .inl hm
          · rcases List.mem_append.mp hm with hm | hm
            · exact .inl hm
            · exact .inr (List.mem_singleton.mp hm ▸ List.mem_cons_self)
        · exact .inr (List.mem_cons_of_mem next hm)
  exact (hfold e.members [] h).resolve_left List.not_mem_nil

theorem Parser.exists_of_readMember {e : Enumeration} {raw : String} {v : Value}
    (h : readMember e raw = .ok v) :
    ∃ m ∈ e.distinctMembers, v = .member e.name m.1 e.mixin m.2 := by
  rw [readMember] at h
  split at h
  · rename_i m hm
    refine ⟨m, ?_, (Except.ok.inj h).symm⟩
    rw [findMember] at hm
    split at hm
    · rename_i n hn
      obtain rfl : n = m := by simpa using hm
      exact List.mem_of_find?_eq_some hn
    · obtain ⟨before, after, hmembers, -, -⟩ := search_eq_some.mp hm
      simp [hmembers]
  · cases h
  · cases h

theorem Parser.exists_of_readBoolean {raw : String} {v : Value} (h : readBoolean raw = .ok v) :
    ∃ b, v = .bool b := by
  simp only [readBoolean] at h
  split at h
  · exact ⟨true, (Except.ok.inj h).symm⟩
  · split at h
    · exact ⟨false, (Except.ok.inj h).symm⟩
    · cases h

end PageQuery
