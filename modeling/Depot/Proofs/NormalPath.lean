import Depot.Change
import Depot.Proofs.Text.Plain

/-!
# Paths in normal form

A path is resolved segment by segment: an empty segment and `.` stay where they are, and `..` goes up, but never
above the start. What is left, joined again, is the normal form of the path. A path that is accepted is its own
normal form (`validatePath_eq_ok_iff`), so no file has two accepted paths (`eq_of_normalForm_eq`).
-/

namespace Depot

open Text

variable {path : String} {parts : List (List Char)} {segment : List Char}

/-! ### Resolution -/

/-- Where a segment leads from the segments that lead to here. -/
def followed (here : List (List Char)) (segment : List Char) : List (List Char) :=
  if segment = [] ∨ segment = ['.'] then here
  else if segment = ['.', '.'] then here.dropLast
  else here ++ [segment]

/-- Where segments lead from the start. -/
def resolved (parts : List (List Char)) : List (List Char) := parts.foldl followed []

/-- A path with its relative segments resolved. -/
def normalForm (path : String) : String := .ofList (['/'].intercalate (resolved (segments path)))

/-- A segment that is a name. -/
def IsName (segment : List Char) : Prop := isRelativeSegment segment = false

theorem isName_iff : IsName segment ↔ segment ≠ [] ∧ segment ≠ ['.'] ∧ segment ≠ ['.', '.'] := by
  simp [IsName, isRelativeSegment, and_assoc]

theorem followed_of_isName (h : IsName segment) (here : List (List Char)) :
    followed here segment = here ++ [segment] := by
  obtain ⟨hempty, hdot, hup⟩ := isName_iff.mp h
  rw [followed, if_neg (by simp [hempty, hdot]), if_neg hup]

theorem mem_followed {here : List (List Char)} {part : List Char} (h : part ∈ followed here segment) :
    part ∈ here ∨ part = segment ∧ IsName segment := by
  unfold followed at h
  split at h
  · exact .inl h
  · rename_i hstays
    split at h
    · exact .inl ((List.dropLast_sublist here).subset h)
    · rename_i hup
      refine (List.mem_append.mp h).imp_right fun hlast => ⟨List.mem_singleton.mp hlast, isName_iff.mpr ?_⟩
      exact ⟨fun hempty => hstays (.inl hempty), fun hdot => hstays (.inr hdot), hup⟩

theorem mem_foldl_followed {here : List (List Char)} {part : List Char} (h : part ∈ parts.foldl followed here) :
    part ∈ here ∨ part ∈ parts ∧ IsName part := by
  induction parts generalizing here with
  | nil => exact .inl h
  | cons segment rest ih =>
    rcases ih h with h | ⟨hrest, hname⟩
    · rcases mem_followed h with h | ⟨rfl, hname⟩
      · exact .inl h
      · exact .inr ⟨List.mem_cons_self, hname⟩
    · exact .inr ⟨List.mem_cons_of_mem _ hrest, hname⟩

theorem mem_resolved {part : List Char} (h : part ∈ resolved parts) : part ∈ parts ∧ IsName part :=
  (mem_foldl_followed h).resolve_left List.not_mem_nil

theorem foldl_followed_of_names (here : List (List Char)) (h : ∀ segment ∈ parts, IsName segment) :
    parts.foldl followed here = here ++ parts := by
  induction parts generalizing here with
  | nil => rw [List.foldl_nil, List.append_nil]
  | cons segment rest ih =>
    rw [List.foldl_cons, followed_of_isName (h segment List.mem_cons_self),
      ih _ fun other hother => h other (List.mem_cons_of_mem _ hother), List.append_assoc, List.singleton_append]

/-! ### Normal forms -/

theorem normalForm_of_names (h : ∀ segment ∈ segments path, IsName segment) : normalForm path = path := by
  rw [normalForm, resolved, foldl_followed_of_names [] h, List.nil_append, segments, List.intercalate_splitOn,
    String.ofList_toList]

theorem segments_normalForm (h : normalForm path ≠ "") : segments (normalForm path) = resolved (segments path) := by
  rw [normalForm, segments, String.toList_ofList]
  refine List.splitOn_intercalate '/' (fun part hpart => ?_) fun hnone => h ?_
  · exact not_mem_of_mem_splitOn (mem_resolved hpart).1
  · rw [normalForm, hnone]
    rfl

theorem normalForm_eq_self_iff (hne : path ≠ "") :
    normalForm path = path ↔ ∀ segment ∈ segments path, IsName segment := by
  refine ⟨fun hnormal segment hsegment => ?_, normalForm_of_names⟩
  have hparts := segments_normalForm (hnormal.symm ▸ hne)
  rw [hnormal] at hparts
  rw [hparts] at hsegment
  exact (mem_resolved hsegment).2

/-! ### Accepted paths -/

/-- A path that a project may hold. -/
structure NormalPath (path : String) : Prop where
  nonempty : path ≠ ""
  short : path.utf8ByteSize ≤ 1024
  noBackslash : '\\' ∉ path.toList
  noNul : Char.ofNat 0 ∉ path.toList
  normal : normalForm path = path

theorem head?_ne_slash (h : ∀ segment ∈ segments path, IsName segment) : path.toList.head? ≠ some '/' := by
  intro hhead
  obtain ⟨rest, hpath⟩ := List.head?_eq_some_iff.mp hhead
  have hempty : [] ∈ segments path := by
    rw [segments, hpath, List.splitOn_cons_eq_if_modifyHead, if_pos (beq_self_eq_true '/')]
    exact List.mem_cons_self
  exact (isName_iff.mp (h [] hempty)).1 rfl

theorem pathFault?_eq_none_iff :
    pathFault? path = none ↔ path.isEmpty = false ∧ path.utf8ByteSize ≤ maxPathBytes ∧
      path.toList.head? ≠ some '/' ∧ (path.toList.any fun c => c == '\\' || c.toNat == 0) = false ∧
      (segments path).any isRelativeSegment = false := by
  unfold pathFault?
  grind

theorem any_forbidden_eq_false_iff {chars : List Char} :
    (chars.any fun c => c == '\\' || c.toNat == 0) = false ↔ '\\' ∉ chars ∧ Char.ofNat 0 ∉ chars := by
  have hnul (c : Char) : c.toNat = 0 ↔ c = Char.ofNat 0 :=
    ⟨fun h => by rw [← Char.ofNat_toNat c, h], fun h => by rw [h]; rfl⟩
  simp only [List.any_eq_false, Bool.or_eq_true, beq_iff_eq, hnul, not_or]
  exact ⟨fun h => ⟨fun hmem => (h _ hmem).1 rfl, fun hmem => (h _ hmem).2 rfl⟩,
    fun h c hc => ⟨fun heq => h.1 (heq ▸ hc), fun heq => h.2 (heq ▸ hc)⟩⟩

/-- **The paths that are accepted are those in normal form, of 1 to 1024 bytes, without backslash and NUL.** -/
theorem validatePath_eq_ok_iff : validatePath path = .ok () ↔ NormalPath path := by
  have hfault : validatePath path = .ok () ↔ pathFault? path = none := by
    unfold validatePath
    cases pathFault? path <;> simp
  have hnames : (segments path).any isRelativeSegment = false ↔ ∀ segment ∈ segments path, IsName segment := by
    simp [IsName]
  rw [hfault, pathFault?_eq_none_iff, any_forbidden_eq_false_iff, hnames]
  constructor
  · rintro ⟨hne, hshort, _, ⟨hbackslash, hnul⟩, hsegments⟩
    exact ⟨by simpa using hne, hshort, hbackslash, hnul, normalForm_of_names hsegments⟩
  · intro h
    have hsegments := (normalForm_eq_self_iff h.nonempty).mp h.normal
    exact ⟨by simpa using h.nonempty, h.short, head?_ne_slash hsegments, ⟨h.noBackslash, h.noNul⟩, hsegments⟩

theorem eq_of_normalForm_eq {other : String} (h : validatePath path = .ok ()) (hother : validatePath other = .ok ())
    (heq : normalForm path = normalForm other) : path = other := by
  rw [← (validatePath_eq_ok_iff.mp h).normal, heq, (validatePath_eq_ok_iff.mp hother).normal]

end Depot
