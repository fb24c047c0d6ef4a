import Depot.Json.Members

/-!
# What is read and written reads back

Reading accepts more than writing produces, so a value that was read need not be written as it was given. It is
written as a value that reads back.

- `Json.Plain`: a value that has a text of its own.
- `Json.Survives`: what is written of `x` is plain and reads back as `x`.
- `Json.Stable`: all that is read survives.
-/

namespace Depot.Json

variable {α β : Type} {write : α → Json} {read : Json → Option α} {x : α} {members : List (String × Json)}
  {name : String} {m : Members}

/-- A value whose text is its own: whole numbers fit into 64 bits, and all strings are text. -/
inductive Plain : Json → Prop where
  | null : Plain .null
  | bool (value : Bool) : Plain (.bool value)
  | int {value : Int} (low : Int64.minValue.toInt ≤ value) (high : value < UInt64.size) : Plain (.int value)
  | str (value : String) : Plain (.str value)
  | arr {items : List Json} (hitems : ∀ item ∈ items, Plain item) : Plain (.arr items)
  | obj {members : List (String × Json)} (hmembers : ∀ member ∈ members, Plain member.2) : Plain (.obj members)

theorem plain_obj : (Json.obj members).Plain ↔ ∀ member ∈ members, member.2.Plain :=
  ⟨fun h => by cases h; assumption, .obj⟩

/-- What is written of a value is plain and reads back. -/
structure Survives (write : α → Json) (read : Json → Option α) (x : α) : Prop where
  plain : (write x).Plain
  again : read (write x) = some x

/-- What is read survives. -/
def Stable (write : α → Json) (read : Json → Option α) : Prop := ∀ json x, read json = some x → Survives write read x

/-! ### Single values -/

theorem survives_str (text : String) : Survives .str str? text := ⟨.str text, rfl⟩

theorem stable_str : Stable .str str? := fun _ text _ => survives_str text

theorem survives_bool (value : Bool) : Survives .bool bool? value := ⟨.bool value, rfl⟩

theorem stable_bool : Stable .bool bool? := fun _ value _ => survives_bool value

theorem intBetween?_eq_some {low high : Int} {json : Json} {value : Int}
    (h : json.intBetween? low high = some value) : json = .int value ∧ low ≤ value ∧ value ≤ high := by
  unfold intBetween? at h
  split at h
  · split at h
    · cases h
      exact ⟨rfl, ‹_›⟩
    · cases h
  · cases h

theorem stable_int64 : Stable .int int64? := by
  intro json value h
  obtain ⟨rfl, hlow, hhigh⟩ := intBetween?_eq_some h
  have hmax : Int64.maxValue.toInt < UInt64.size := by decide
  exact ⟨.int hlow (by omega), h⟩

theorem survives_word {bits n : Nat} (hbits : bits ≤ 64) (hn : n ≤ 1 <<< bits - 1) :
    Survives .ofNat (word? bits) n := by
  have hsize : (1 <<< bits - 1 : Nat) < UInt64.size := by
    rw [Nat.one_shiftLeft]
    have hpow := Nat.pow_le_pow_right (n := 2) (by decide) hbits
    have hpos := Nat.two_pow_pos bits
    have h64 : 2 ^ 64 = UInt64.size := rfl
    omega
  have hmin : Int64.minValue.toInt ≤ 0 := by decide
  refine ⟨.int (by omega) (by omega), ?_⟩
  rw [word?, Json.ofNat, intBetween?, if_pos ⟨Int.natCast_nonneg n, by omega⟩]
  rfl

theorem stable_word {bits : Nat} (hbits : bits ≤ 64) : Stable .ofNat (word? bits) := by
  intro json n h
  obtain ⟨value, hvalue, rfl⟩ := Option.map_eq_some_iff.mp h
  obtain ⟨_, hlow, hhigh⟩ := intBetween?_eq_some hvalue
  exact survives_word hbits (by omega)

theorem mapM_eq_some_cons {xs : List α} {f : α → Option β} {a : α} {ys : List β} :
    (a :: xs).mapM f = some ys ↔ ∃ y rest, f a = some y ∧ xs.mapM f = some rest ∧ ys = y :: rest := by
  simp only [List.mapM_cons, Option.bind_eq_bind, Option.bind_eq_some_iff, Option.pure_def, Option.some.injEq]
  exact ⟨fun ⟨y, hy, rest, hrest, heq⟩ => ⟨y, rest, hy, hrest, heq.symm⟩,
    fun ⟨y, rest, hy, hrest, heq⟩ => ⟨y, hy, rest, hrest, heq.symm⟩⟩

theorem Stable.list (hstable : Stable write read) : Stable (.ofList write) (list? read) := by
  intro json xs h
  unfold list? at h
  split at h
  · rename_i items
    have hitems : (∀ x ∈ xs, (write x).Plain) ∧ (xs.map write).mapM read = some xs := by
      induction items generalizing xs with
      | nil =>
        cases h
        exact ⟨fun x hx => (nomatch hx), rfl⟩
      | cons item items ih =>
        obtain ⟨x, rest, hx, hrest, rfl⟩ := mapM_eq_some_cons.mp h
        obtain ⟨hplain, hback⟩ := ih rest hrest
        obtain ⟨hfirst, hagain⟩ := hstable item x hx
        exact ⟨List.forall_mem_cons.mpr ⟨hfirst, hplain⟩, mapM_eq_some_cons.mpr ⟨x, rest, hagain, hback, rfl⟩⟩
    refine ⟨.arr fun item hitem => ?_, hitems.2⟩
    obtain ⟨x, hx, rfl⟩ := List.mem_map.mp hitem
    exact hitems.1 x hx
  · cases h

theorem Survives.some (hx : Survives write read x) (hnull : read .null = none) :
    Survives (.ofOption write) (nullable? read) (some x) := by
  refine ⟨hx.plain, ?_⟩
  have hagain : read (ofOption write (.some x)) = .some x := hx.again
  unfold nullable?
  split
  · rename_i hwritten
    rw [hwritten, hnull] at hagain
    cases hagain
  · rw [hagain]
    rfl

theorem Stable.nullable (hstable : Stable write read) (hnull : read .null = none) :
    Stable (.ofOption write) (nullable? read) := by
  intro json x h
  unfold nullable? at h
  split at h
  · cases h
    exact ⟨.null, rfl⟩
  · obtain ⟨value, hvalue, rfl⟩ := Option.map_eq_some_iff.mp h
    exact (hstable _ _ hvalue).some hnull

theorem stable_unitVariant {table : List (String × α)} {spell : α → String}
    (htable : ∀ x, table.lookup (spell x) = some x) : Stable (fun x => .str (spell x)) (unitVariant? table) :=
  fun _ x _ => ⟨.str _, htable x⟩

theorem Stable.map (hstable : Stable write read) {f : α → β} {g : β → α} (hfg : ∀ x, g (f x) = x) :
    Stable (fun y => write (g y)) (fun json => (read json).map f) := by
  intro json y h
  obtain ⟨x, hx, rfl⟩ := Option.map_eq_some_iff.mp h
  obtain ⟨hplain, hagain⟩ := hstable json x hx
  refine ⟨?_, ?_⟩
  · rw [hfg]
    exact hplain
  · rw [hfg, hagain]
    rfl

/-! ### Fields

Each lemma about what is written takes one step of reading, for whatever is read next. -/

theorem of?_obj (hnodup : (members.map Prod.fst).Nodup) (names : List String) (next : Members → Option β) :
    (Members.of? names (.obj members) >>= next) = next ⟨members, false⟩ := by
  rw [Members.of?, if_pos]
  · rfl
  rw [List.all_eq_true]
  intro name _
  rw [decide_eq_true_iff]
  induction members with
  | nil => exact Nat.zero_le _
  | cons member members ih =>
    obtain ⟨hnew, hrest⟩ := List.nodup_cons.mp hnodup
    rw [List.filter_cons]
    split
    · rename_i heq
      have hnone : members.filter (fun m => m.1 == name) = [] := by
        rw [List.filter_eq_nil_iff]
        intro other hother hsame
        exact hnew ((beq_iff_eq.mp heq).trans (beq_iff_eq.mp hsame).symm ▸ List.mem_map_of_mem hother)
      rw [hnone]
      exact Nat.le_refl _
    · exact ih hrest

theorem Stable.required (hstable : Stable write read) (h : m.required? name read = some x) : Survives write read x := by
  obtain ⟨json, _, hread⟩ := Option.bind_eq_some_iff.mp h
  exact hstable json x hread

theorem Survives.required (hx : Survives write read x) (hfound : members.lookup name = .some (write x))
    (next : α → Option β) : (Members.required? ⟨members, false⟩ name read >>= next) = next x := by
  rw [Members.required?, hfound, Option.bind_some, hx.again]
  rfl

theorem Stable.optional (hstable : Stable write read) (hnull : read .null = none) {x : Option α}
    (h : m.optional? name read = some x) : Survives (.ofOption write) (nullable? read) x := by
  unfold Members.optional? at h
  split at h
  · exact hstable.nullable hnull _ x h
  · split at h
    · cases h
    · cases h
      exact ⟨.null, rfl⟩

theorem Survives.optional {x : Option α} (hx : Survives (.ofOption write) (nullable? read) x)
    (hfound : members.lookup name = .some (.ofOption write x)) (next : Option α → Option β) :
    (Members.optional? ⟨members, false⟩ name read >>= next) = next x := by
  rw [Members.optional?, hfound]
  change (nullable? read (.ofOption write x) >>= next) = next x
  rw [hx.again]
  rfl

theorem Stable.defaulted (hstable : Stable write read) {value : α} (hvalue : Survives write read value)
    (h : m.defaulted? name value read = some x) : Survives write read x := by
  unfold Members.defaulted? at h
  split at h
  · exact hstable _ x h
  · cases h
    exact hvalue

theorem Survives.defaulted (hx : Survives write read x) (hfound : members.lookup name = .some (write x)) (value : α)
    (next : α → Option β) : (Members.defaulted? ⟨members, false⟩ name value read >>= next) = next x := by
  rw [Members.defaulted?, hfound]
  change (read (write x) >>= next) = next x
  rw [hx.again]
  rfl

theorem tagged?_obj {tag : String} (hnew : tag ∉ members.map Prod.fst) (name : String)
    (next : String × Json → Option β) :
    (tagged? tag (.obj ((tag, .str name) :: members)) >>= next) = next (name, .obj members) := by
  have hother : ∀ m ∈ members, m.1 ≠ tag := fun m hm heq => hnew (heq ▸ List.mem_map_of_mem hm)
  have hnone : members.filter (fun m => m.1 == tag) = [] := by
    rw [List.filter_eq_nil_iff]
    exact fun m hm heq => hother m hm (beq_iff_eq.mp heq)
  have hall : members.filter (fun m => m.1 != tag) = members := by
    rw [List.filter_eq_self]
    exact fun m hm => bne_iff_ne.mpr (hother m hm)
  have hread : tagged? tag (.obj ((tag, .str name) :: members)) = some (name, .obj members) := by
    simp only [tagged?, List.filter_cons, beq_self_eq_true, if_true, hnone, bne_self_eq_false, Bool.false_eq_true,
      if_false, hall]
  rw [hread]
  rfl

end Depot.Json
