import Mathlib.Data.List.Basic

-- Singly linked nodes in a store of links. The address 0 is no node.
namespace LinkedChains

variable {next other : Nat → Nat} {address : Nat} {chain front : List Nat} {last node : Nat}

-- From an address on the nodes are these, and then there is no more.
def Links (next : Nat → Nat) : Nat → List Nat → Prop
  | address,[] => address = 0
  | address,node :: chain => address = node ∧ node ≠ 0 ∧ Links next (next node) chain

-- The nodes a loop meets that follows the links, where it ends in so many turns.
def chase (next : Nat → Nat) : Nat → Nat → Option (List Nat)
  | 0,address => if address = 0 then some [] else none
  | turns + 1,address =>
    if address = 0 then some [] else (chase next turns (next address)).map fun chain => address :: chain

theorem chase_links (links : Links next address chain) (turns : Nat) (enough : chain.length ≤ turns) :
    chase next turns address = some chain := by
  induction chain generalizing address turns with
  | nil =>
      have none : address = 0 := links
      cases turns <;> rw [chase,if_pos none]
  | cons node chain ih =>
      obtain ⟨rfl,some,rest⟩ := links
      cases turns with
      | zero => exact absurd enough (Nat.not_succ_le_zero _)
      | succ turns =>
          rw [chase,if_neg some,ih rest turns (Nat.le_of_succ_le_succ enough),Option.map_some]

theorem Links.some (links : Links next address chain) : ∀ node ∈ chain,node ≠ 0 := by
  induction chain generalizing address with
  | nil => intro node member; exact (List.not_mem_nil member).elim
  | cons first chain ih =>
      obtain ⟨_,some,rest⟩ := links
      intro node member
      rcases List.mem_cons.mp member with rfl | member
      · exact some
      · exact ih rest node member

theorem Links.congr (links : Links next address chain) (same : ∀ node ∈ chain,other node = next node) :
    Links other address chain := by
  induction chain generalizing address with
  | nil => exact links
  | cons node chain ih =>
      obtain ⟨here,some,rest⟩ := links
      refine ⟨here,some,?_⟩
      rw [same node List.mem_cons_self]
      exact ih rest fun later member => same later (List.mem_cons_of_mem _ member)

-- One node more, behind the last.
theorem Links.extend (links : Links next address (front ++ [last])) (same : ∀ a ∈ front,other a = next a)
    (linked : other last = node) (some : node ≠ 0) (closed : other node = 0) :
    Links other address (front ++ [last,node]) := by
  induction front generalizing address with
  | nil =>
      obtain ⟨here,present,_⟩ := links
      exact ⟨here,present,linked,some,closed⟩
  | cons first front ih =>
      obtain ⟨here,present,rest⟩ := links
      refine ⟨here,present,?_⟩
      rw [same first List.mem_cons_self]
      exact ih rest fun later member => same later (List.mem_cons_of_mem _ member)

end LinkedChains
