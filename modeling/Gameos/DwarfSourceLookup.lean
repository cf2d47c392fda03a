import Mathlib.Data.List.Induction
import Mathlib.Data.List.Pairwise
import Gameos.DwarfLine

-- kstd/dwarf.hh: from an address back to the source line.
namespace DwarfSourceLookup
open Dwarf

structure Source_Lookup_Result where
  row : SourceRow
  found : Bool
deriving DecidableEq, Repr

structure Lookup where
  result : SourceRow
  found : Bool
  sequence_result : SourceRow
  sequence_found : Bool
  in_sequence : Bool
deriving DecidableEq, Repr

def no_row : SourceRow := ⟨0,[],0,false⟩

-- One turn of the loop over the rows.
def lookup_row (address : Nat) (s : Lookup) (row : SourceRow) : Lookup :=
  if row.isEndOfSequence then
    let s :=
      if s.in_sequence && s.sequence_found && address < row.address then
        {s with result := s.sequence_result, found := true}
      else s
    {s with in_sequence := false, sequence_found := false}
  else
    let s := if s.in_sequence then s else {s with in_sequence := true, sequence_found := false}
    if row.address ≤ address && (!s.sequence_found || row.address > s.sequence_result.address) then
      {s with sequence_result := row, sequence_found := true}
    else s

def source_for_address (rows : List SourceRow) (address : Nat) : Source_Lookup_Result :=
  let s := rows.foldl (lookup_row address) ⟨no_row,false,no_row,false,false⟩
  if s.in_sequence && s.sequence_found then ⟨s.sequence_result,true⟩ else ⟨s.result,s.found⟩

-- The last of the rows at or below the address.
def entry (address : Nat) (rows : List SourceRow) : Option SourceRow :=
  (rows.filter fun row => row.address ≤ address).getLast?

-- A sequence of the line table: rows by address, and the row that closes it.
structure Sequence where
  rows : List SourceRow
  last : SourceRow
  ordinary : ∀ row ∈ rows, row.isEndOfSequence = false
  closes : last.isEndOfSequence = true
  sorted : (rows ++ [last]).Pairwise fun one two => one.address ≤ two.address

namespace Sequence

def listing (sequence : Sequence) : List SourceRow := sequence.rows ++ [sequence.last]

def Covers (sequence : Sequence) (address : Nat) : Prop :=
  ∃ first, sequence.rows.head? = some first ∧ first.address ≤ address ∧ address < sequence.last.address

-- The row DWARF gives for an address.
def entryFor (sequence : Sequence) (address : Nat) : Option SourceRow := entry address sequence.rows

-- That row is the first one that stands at its address.
def Foremost (sequence : Sequence) (address : Nat) : Prop :=
  ∀ row, sequence.entryFor address = some row →
    sequence.rows.find? (fun other => other.address = row.address) = some row

end Sequence

structure LineTable where
  sequences : List Sequence
  apart : sequences.Pairwise fun one two => ∀ address, ¬ (one.Covers address ∧ two.Covers address)

def LineTable.rows (table : LineTable) : List SourceRow := table.sequences.flatMap Sequence.listing

-- The lookup finds the sequence that covers the address, and its entry for it.
structure Finds (table : LineTable) (address : Nat) (result : Source_Lookup_Result) : Prop where
  found : result.found = true ↔ ∃ sequence ∈ table.sequences, sequence.Covers address
  row : ∀ sequence ∈ table.sequences, sequence.Covers address → sequence.entryFor address = some result.row

section Pass
variable (address : Nat)

-- The rows of one sequence, seen from its candidate alone.
def better : Option SourceRow → SourceRow → Option SourceRow
  | none, row => if row.address ≤ address then some row else none
  | some best, row => if row.address ≤ address ∧ best.address < row.address then some row else some best

def candidate (rows : List SourceRow) : Option SourceRow := rows.foldl (better address) none

theorem candidate_snoc (rows : List SourceRow) (row : SourceRow) :
    candidate address (rows ++ [row]) = better address (candidate address rows) row := by
  simp [candidate]

theorem entry_snoc (rows : List SourceRow) (row : SourceRow) :
    entry address (rows ++ [row]) = if row.address ≤ address then some row else entry address rows := by
  unfold entry
  rw [List.filter_append]
  by_cases below : row.address ≤ address
  · simp [below]
  · simp [below]

theorem entry_mem {rows : List SourceRow} {row : SourceRow} (found : entry address rows = some row) :
    row ∈ rows ∧ row.address ≤ address := by
  have present := List.mem_of_getLast? found
  rw [List.mem_filter] at present
  exact ⟨present.1,of_decide_eq_true present.2⟩

theorem entry_none {rows : List SourceRow} : entry address rows = none ↔ ∀ row ∈ rows, address < row.address := by
  unfold entry
  rw [List.getLast?_eq_none_iff,List.filter_eq_nil_iff]
  simp

theorem entry_highest {rows : List SourceRow} {row other : SourceRow}
    (sorted : rows.Pairwise fun one two => one.address ≤ two.address) (found : entry address rows = some row)
    (present : other ∈ rows) (below : other.address ≤ address) : other.address ≤ row.address := by
  induction rows using List.reverseRecOn with
  | nil => cases present
  | append_singleton rows last ih =>
      obtain ⟨earlier,_,between⟩ := List.pairwise_append.mp sorted
      rw [entry_snoc] at found
      rcases List.mem_append.mp present with inside | final
      · split at found
        · cases found
          exact between other inside row (List.mem_singleton_self row)
        · exact ih earlier found inside
      · cases List.mem_singleton.mp final
        rw [if_pos below] at found
        cases found
        exact Nat.le_refl _

-- In a sorted list the candidate is the first of the rows at the address of the entry.
theorem candidate_first (rows : List SourceRow) (sorted : rows.Pairwise fun one two => one.address ≤ two.address) :
    candidate address rows =
      (entry address rows).bind fun row => rows.find? fun other => other.address = row.address := by
  induction rows using List.reverseRecOn with
  | nil => rfl
  | append_singleton rows row ih =>
      obtain ⟨earlier,_,between⟩ := List.pairwise_append.mp sorted
      have below : ∀ other ∈ rows, other.address ≤ row.address :=
        fun other present => between other present row (List.mem_singleton_self row)
      rw [candidate_snoc,entry_snoc,ih earlier]
      cases found : entry address rows with
      | none =>
          have above := (entry_none address).mp found
          by_cases reached : row.address ≤ address
          · have absent : rows.find? (fun other => other.address = row.address) = none := by
              rw [List.find?_eq_none]
              intro other present same
              have bound := above other present
              have same := of_decide_eq_true same
              omega
            simp [better,reached,List.find?_append,absent]
          · simp [better,reached]
      | some best =>
          obtain ⟨present,low⟩ := entry_mem address found
          obtain ⟨first,here⟩ : ∃ first, rows.find? (fun other => other.address = best.address) = some first :=
            Option.isSome_iff_exists.mp (List.find?_isSome.mpr ⟨best,present,by simp⟩)
          have same : first.address = best.address := by simpa using List.find?_some here
          by_cases reached : row.address ≤ address
          · by_cases higher : best.address < row.address
            · have absent : rows.find? (fun other => other.address = row.address) = none := by
                rw [List.find?_eq_none]
                intro other inside equal
                have equal := of_decide_eq_true equal
                have bound := entry_highest address earlier found inside (by omega)
                omega
              simp [better,here,same,reached,higher,List.find?_append,absent]
            · have equal : row.address = best.address := by
                have bound := below best present
                omega
              simp [better,here,same,equal,low,List.find?_append]
          · simp [better,here,reached,List.find?_append]

-- What the loop holds of the sequence it is in.
def Lookup.chosen (s : Lookup) : Option SourceRow :=
  if s.in_sequence && s.sequence_found then some s.sequence_result else none

theorem ordinary_row (s : Lookup) {row : SourceRow} (plain : row.isEndOfSequence = false) :
    ((lookup_row address s row).result = s.result ∧ (lookup_row address s row).found = s.found) ∧
      (lookup_row address s row).chosen = better address s.chosen row := by
  obtain ⟨result,found,sequence_result,sequence_found,in_sequence⟩ := s
  unfold lookup_row Lookup.chosen
  rw [if_neg (by rw [plain]; exact Bool.false_ne_true)]
  cases in_sequence with
  | false => by_cases reached : row.address ≤ address <;> simp [better,reached]
  | true =>
      cases sequence_found with
      | false => by_cases reached : row.address ≤ address <;> simp [better,reached]
      | true =>
          by_cases reached : row.address ≤ address ∧ sequence_result.address < row.address <;> simp [better,reached]

theorem ordinary_pass (s : Lookup) (rows : List SourceRow) (ordinary : ∀ row ∈ rows, row.isEndOfSequence = false) :
    ((rows.foldl (lookup_row address) s).result = s.result ∧ (rows.foldl (lookup_row address) s).found = s.found) ∧
      (rows.foldl (lookup_row address) s).chosen = rows.foldl (better address) s.chosen := by
  induction rows generalizing s with
  | nil => exact ⟨⟨rfl,rfl⟩,rfl⟩
  | cons row rows ih =>
      obtain ⟨⟨result,found⟩,chosen⟩ := ordinary_row address s (ordinary row List.mem_cons_self)
      obtain ⟨⟨results,founds⟩,choice⟩ :=
        ih (lookup_row address s row) fun other present => ordinary other (List.mem_cons_of_mem _ present)
      rw [chosen] at choice
      exact ⟨⟨results.trans result,founds.trans found⟩,choice⟩

theorem closing_row (s : Lookup) {row : SourceRow} (closes : row.isEndOfSequence = true) :
    (lookup_row address s row).chosen = none ∧
      ((∃ best, s.chosen = some best ∧ address < row.address ∧
          (lookup_row address s row).result = best ∧ (lookup_row address s row).found = true) ∨
        ((∀ best, s.chosen = some best → row.address ≤ address) ∧
          (lookup_row address s row).result = s.result ∧ (lookup_row address s row).found = s.found)) := by
  obtain ⟨result,found,sequence_result,sequence_found,in_sequence⟩ := s
  unfold lookup_row Lookup.chosen
  rw [if_pos closes]
  cases in_sequence with
  | false => simp
  | true =>
      cases sequence_found with
      | false => simp
      | true =>
          by_cases before : address < row.address
          · simp [before]
          · simp [before]
            omega

theorem candidate_covers (sequence : Sequence) :
    sequence.Covers address ↔ (∃ best, candidate address sequence.rows = some best) ∧ address < sequence.last.address := by
  have sorted := (List.pairwise_append.mp sequence.sorted).1
  have some_below : (∃ best, candidate address sequence.rows = some best) ↔
      ∃ first, sequence.rows.head? = some first ∧ first.address ≤ address := by
    rw [candidate_first address _ sorted]
    cases rows : sequence.rows with
    | nil => simp [entry]
    | cons first rest =>
        rw [rows] at sorted
        cases found : entry address (first :: rest) with
        | none =>
            have above := (entry_none address).mp found first List.mem_cons_self
            simp
            exact above
        | some row =>
            obtain ⟨present,low⟩ := entry_mem address found
            have lowest : first.address ≤ row.address := by
              rcases List.mem_cons.mp present with rfl | later
              · exact Nat.le_refl _
              · exact (List.pairwise_cons.mp sorted).1 row later
            obtain ⟨best,here⟩ : ∃ best, (first :: rest).find? (fun other => other.address = row.address) = some best :=
              Option.isSome_iff_exists.mp (List.find?_isSome.mpr ⟨row,present,by simp⟩)
            exact ⟨fun _ => ⟨first,rfl,lowest.trans low⟩,fun _ => ⟨best,here⟩⟩
  constructor
  · intro ⟨first,head,low,high⟩
    exact ⟨some_below.mpr ⟨first,head,low⟩,high⟩
  · intro ⟨exists_best,high⟩
    obtain ⟨first,head,low⟩ := some_below.mp exists_best
    exact ⟨first,head,low,high⟩

-- A whole sequence: either it covers the address and its candidate is the result, or
-- the result is still that of the sequences before.
theorem sequence_pass (s : Lookup) (outside : s.chosen = none) (sequence : Sequence) :
    (sequence.listing.foldl (lookup_row address) s).chosen = none ∧
      ((sequence.Covers address ∧ (sequence.listing.foldl (lookup_row address) s).found = true ∧
          candidate address sequence.rows = some (sequence.listing.foldl (lookup_row address) s).result) ∨
        (¬ sequence.Covers address ∧ (sequence.listing.foldl (lookup_row address) s).found = s.found ∧
          (sequence.listing.foldl (lookup_row address) s).result = s.result)) := by
  obtain ⟨⟨result,found⟩,chosen⟩ := ordinary_pass address s sequence.rows sequence.ordinary
  rw [outside] at chosen
  unfold Sequence.listing
  rw [List.foldl_append,List.foldl_cons,List.foldl_nil]
  generalize sequence.rows.foldl (lookup_row address) s = middle at *
  obtain ⟨closed,ends⟩ := closing_row address middle sequence.closes
  refine ⟨closed,?_⟩
  rcases ends with ⟨best,here,before,same,reported⟩ | ⟨after,same,reported⟩
  · have known : candidate address sequence.rows = some best := chosen.symm.trans here
    exact .inl ⟨(candidate_covers address sequence).mpr ⟨⟨best,known⟩,before⟩,reported,by rw [same]; exact known⟩
  · refine .inr ⟨?_,reported.trans found,same.trans result⟩
    intro covers
    obtain ⟨⟨best,known⟩,before⟩ := (candidate_covers address sequence).mp covers
    exact absurd before (Nat.not_lt.mpr (after best (chosen.trans known)))

theorem table_pass (s : Lookup) (outside : s.chosen = none) (sequences : List Sequence)
    (apart : sequences.Pairwise fun one two => ∀ address, ¬ (one.Covers address ∧ two.Covers address)) :
    ((sequences.flatMap Sequence.listing).foldl (lookup_row address) s).chosen = none ∧
      ((∃ sequence ∈ sequences, sequence.Covers address ∧
          ((sequences.flatMap Sequence.listing).foldl (lookup_row address) s).found = true ∧
          candidate address sequence.rows = some ((sequences.flatMap Sequence.listing).foldl (lookup_row address) s).result) ∨
        ((∀ sequence ∈ sequences, ¬ sequence.Covers address) ∧
          ((sequences.flatMap Sequence.listing).foldl (lookup_row address) s).found = s.found ∧
          ((sequences.flatMap Sequence.listing).foldl (lookup_row address) s).result = s.result)) := by
  induction sequences generalizing s with
  | nil => exact ⟨outside,.inr ⟨fun _ present => absurd present List.not_mem_nil,rfl,rfl⟩⟩
  | cons sequence sequences ih =>
      obtain ⟨others,apart⟩ := List.pairwise_cons.mp apart
      obtain ⟨closed,here⟩ := sequence_pass address s outside sequence
      rw [List.flatMap_cons,List.foldl_append]
      generalize sequence.listing.foldl (lookup_row address) s = middle at *
      obtain ⟨ended,later⟩ := ih middle closed apart
      refine ⟨ended,?_⟩
      rcases later with ⟨other,present,covers,found,known⟩ | ⟨uncovered,found,result⟩
      · exact .inl ⟨other,List.mem_cons_of_mem _ present,covers,found,known⟩
      · rw [found,result]
        rcases here with ⟨covers,reported,known⟩ | ⟨uncovering,reported,same⟩
        · exact .inl ⟨sequence,List.mem_cons_self,covers,reported,known⟩
        · refine .inr ⟨?_,reported,same⟩
          intro other present
          rcases List.mem_cons.mp present with rfl | elsewhere
          · exact uncovering
          · exact uncovered other elsewhere

end Pass

theorem unchosen {s : Lookup} (closed : s.chosen = none) : ¬ (s.in_sequence && s.sequence_found) = true := by
  intro open_still
  unfold Lookup.chosen at closed
  rw [if_pos open_still] at closed
  cases closed

-- In a table whose sequences do not overlap the lookup takes the first row at the
-- address of the entry, which is the entry exactly when no other row precedes it there.
theorem source_for_address_exact (table : LineTable) (address : Nat) :
    Finds table address (source_for_address table.rows address) ↔
      ∀ sequence ∈ table.sequences, sequence.Covers address → sequence.Foremost address := by
  obtain ⟨closed,ends⟩ := table_pass address ⟨no_row,false,no_row,false,false⟩ rfl table.sequences table.apart
  unfold source_for_address LineTable.rows
  generalize (table.sequences.flatMap Sequence.listing).foldl (lookup_row address) ⟨no_row,false,no_row,false,false⟩ = s at *
  dsimp only
  rw [if_neg (unchosen closed)]
  rcases ends with ⟨covering,there,covers,found,known⟩ | ⟨uncovered,found,_⟩
  · have first := candidate_first address covering.rows (List.pairwise_append.mp covering.sorted).1
    rw [known] at first
    have symmetric : Std.Symm fun one two : Sequence => ∀ address, ¬ (one.Covers address ∧ two.Covers address) :=
      ⟨fun _ _ disjoint address both => disjoint address both.symm⟩
    have only : ∀ sequence ∈ table.sequences, sequence.Covers address → sequence = covering := by
      intro sequence present also
      by_contra another
      exact table.apart.forall present there another address ⟨also,covers⟩
    have chosen : covering.entryFor address = some s.result ↔ covering.Foremost address := by
      unfold Sequence.Foremost
      change entry address covering.rows = _ ↔ ∀ row, entry address covering.rows = some row → _
      cases given : entry address covering.rows with
      | none =>
          rw [given] at first
          cases first
      | some row =>
          rw [given,Option.bind_some] at first
          constructor
          · intro same row' here
            cases here
            rw [← first,← same]
          · intro foremost
            rw [first,foremost row rfl]
    constructor
    · intro finds sequence present also
      cases only sequence present also
      exact chosen.mp (finds.row covering there covers)
    · intro foremost
      refine ⟨⟨fun _ => ⟨covering,there,covers⟩,fun _ => found⟩,?_⟩
      intro sequence present also
      cases only sequence present also
      exact chosen.mpr (foremost covering there covers)
  · constructor
    · intro _ sequence present covers
      exact absurd covers (uncovered sequence present)
    · intro _
      refine ⟨?_,?_⟩
      · rw [found]
        constructor
        · exact fun wrong => absurd wrong Bool.false_ne_true
        · intro ⟨sequence,present,covers⟩
          exact absurd covers (uncovered sequence present)
      · intro sequence present covers
        exact absurd covers (uncovered sequence present)

-- Two rows at one address: a line with two statements, and the one after it.
def tied : Sequence where
  rows := [⟨4096,[],10,false⟩,⟨4096,[],11,false⟩]
  last := ⟨4100,[],11,true⟩
  ordinary := by decide
  closes := rfl
  sorted := by decide

theorem tied_row_missed : ¬ Finds ⟨[tied],List.pairwise_singleton _ _⟩ 4097
    (source_for_address (LineTable.rows ⟨[tied],List.pairwise_singleton _ _⟩) 4097) := by
  intro finds
  have row := finds.row tied (List.mem_singleton_self tied) ⟨⟨4096,[],10,false⟩,rfl,by decide,by decide⟩
  revert row
  decide

end DwarfSourceLookup
