import Mathlib.Data.List.Basic

-- std::filesystem::path where '/' is the only separator and there are no root
-- names. Nothing here is about a particular program.
namespace FilesystemPaths

abbrev Text := List Char

-- The parts between slashes, empty ones included.
def segments : Text → List Text
  | [] => [[]]
  | c :: rest =>
    if c = '/' then [] :: segments rest
    else
      match segments rest with
      | [] => [[c]]
      | first :: others => (c :: first) :: others

theorem segments_nonempty (path : Text) : segments path ≠ [] := by
  cases path with
  | nil => simp [segments]
  | cons c rest =>
      rw [segments]
      split
      · simp
      · split <;> simp

def filename (path : Text) : Text := (segments path).getLast (segments_nonempty path)

def isAbsolute (path : Text) : Bool := path.head? == some '/'

-- The names on the way, with an empty one where the path ends in a slash.
def elements (path : Text) : List Text :=
  let names := (segments path).filter fun part => part ≠ []
  if names ≠ [] ∧ filename path = [] then names ++ [[]] else names

-- operator ==
def same (p q : Text) : Bool := isAbsolute p == isAbsolute q && elements p == elements q

-- operator /
def join (p q : Text) : Text :=
  if isAbsolute q then q else if filename p = [] then p ++ q else p ++ '/' :: q

theorem same_iff {p q : Text} : same p q = true ↔ isAbsolute p = isAbsolute q ∧ elements p = elements q := by
  simp [same]

theorem same_refl (p : Text) : same p p = true := same_iff.mpr ⟨rfl,rfl⟩

theorem same_symm (equal : same p q = true) : same q p = true :=
  have ⟨absolute,names⟩ := same_iff.mp equal
  same_iff.mpr ⟨absolute.symm,names.symm⟩

theorem same_trans (one : same p q = true) (two : same q r = true) : same p r = true :=
  have ⟨absolute,names⟩ := same_iff.mp one
  have ⟨absolute',names'⟩ := same_iff.mp two
  same_iff.mpr ⟨absolute.trans absolute',names.trans names'⟩

-- The last name is the file name.
theorem filename_elements (path : Text) : filename path = (elements path).getLastD [] := by
  unfold elements
  dsimp only
  split
  · rename_i trailing
    rw [trailing.2,List.getLastD_eq_getLast?,List.getLast?_append]
    rfl
  · rename_i other
    by_cases last : filename path = []
    · have none : (segments path).filter (fun part => part ≠ []) = [] := by
        by_contra some
        exact other ⟨some,last⟩
      rw [last,none]
      rfl
    · obtain ⟨before,split⟩ : ∃ before, segments path = before ++ [filename path] :=
        ⟨_,(List.dropLast_append_getLast (segments_nonempty path)).symm⟩
      have kept : [filename path].filter (fun part => part ≠ []) = [filename path] := by simp [last]
      rw [split,List.filter_append,kept,List.getLastD_eq_getLast?,List.getLast?_append]
      rfl

theorem filename_same {p q : Text} (equal : same p q = true) : filename p = filename q := by
  rw [filename_elements,filename_elements,(same_iff.mp equal).2]

theorem segments_append (p q : Text) : segments (p ++ '/' :: q) = segments p ++ segments q := by
  induction p with
  | nil => rfl
  | cons c rest ih =>
      rw [List.cons_append,segments,segments]
      by_cases slash : c = '/'
      · rw [if_pos slash,if_pos slash,ih]
        rfl
      · rw [if_neg slash,if_neg slash,ih]
        cases parts : segments rest with
        | nil => exact absurd parts (segments_nonempty rest)
        | cons first others => rfl

theorem filename_append (p q : Text) : filename (p ++ '/' :: q) = filename q := by
  unfold filename
  simp only [segments_append,List.getLast_append_of_ne_nil _ (segments_nonempty q)]

-- A path without a file name is empty or ends in a slash.
theorem filename_nil {path : Text} (nothing : filename path = []) : path = [] ∨ ∃ before, path = before ++ ['/'] := by
  induction path with
  | nil => exact .inl rfl
  | cons c rest ih =>
      have tail : filename rest = [] → rest = [] ∨ ∃ before, c :: rest = before ++ ['/'] := by
        intro empty
        obtain rfl | ⟨before,rfl⟩ := ih empty
        · exact .inl rfl
        · exact .inr ⟨c :: before,rfl⟩
      unfold filename at nothing tail
      by_cases slash : c = '/'
      · subst slash
        simp only [segments,if_true,List.getLast_cons (segments_nonempty rest)] at nothing
        obtain rfl | ends := tail nothing
        · exact .inr ⟨[],rfl⟩
        · exact .inr ends
      · simp only [segments,if_neg slash] at nothing
        cases parts : segments rest with
        | nil => exact absurd parts (segments_nonempty rest)
        | cons first others =>
            simp only [parts] at nothing tail
            cases others with
            | nil => simp at nothing
            | cons second others =>
                simp only [List.getLast_cons_cons] at nothing tail
                obtain rfl | ends := tail nothing
                · simp [segments] at parts
                · exact .inr ends

theorem filename_join (p q : Text) : filename (join p q) = filename q := by
  unfold join
  split
  · rfl
  · split
    · rename_i nothing
      obtain rfl | ⟨before,rfl⟩ := filename_nil nothing
      · rfl
      · rw [List.append_assoc]
        exact filename_append before q
    · exact filename_append p q

end FilesystemPaths
