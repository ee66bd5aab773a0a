import Mathlib.Data.Finset.Card
import Mathlib.Data.Finset.Lattice.Fold
import Mathlib.Data.List.MinMax

/-!
# The search of `_NCHAlgCalc`

With consistent hashing the connection for a request is looked for in `NCHTree`, from the hash of
the request downwards and then from the largest hash downwards, until a connection works.  The tree
library is a parameter: it finds the node with the largest key below a bound.
-/

namespace CommonLib

def CRB3_MAX_HASH_NODES : Nat := 1024
def CRB3_STATUS_NULL : Int := -1
def CRB3_STATUS_WORKING : Int := 0
def CRB3_STATUS_BACKUP : Int := 1
def CRB3_STATUS_EXCEPTION : Int := 2

/-! ## The tree -/

/-- What the search calls on a tree whose nodes are `ν`. -/
structure Irbt (ν : Type) where
  irbtPredecessor : Nat → Option ν
  irbtPrev : ν → Option ν
  irbtLast : Option ν

section Tree

variable {ν : Type} {nodes : Finset ν} {key : ν → Nat}

/-- `found` is the node with the largest key below `bound`, or there is none. -/
def LargestBelow (nodes : Finset ν) (key : ν → Nat) (bound : Nat) : Option ν → Prop
  | none => ∀ node ∈ nodes, bound ≤ key node
  | some found => found ∈ nodes ∧ key found < bound ∧
      ∀ node ∈ nodes, key node < bound → key node ≤ key found

/-- The functions go through `nodes` in the order of their keys. -/
structure Irbt.Lawful (tree : Irbt ν) (nodes : Finset ν) (key : ν → Nat) : Prop where
  predecessor : ∀ bound, LargestBelow nodes key bound (tree.irbtPredecessor bound)
  prev : ∀ node ∈ nodes, LargestBelow nodes key (key node) (tree.irbtPrev node)
  last : ∀ bound, (∀ node ∈ nodes, key node < bound) → LargestBelow nodes key bound tree.irbtLast

/-- The nodes up to `node`, which the search has before it. -/
def rank (nodes : Finset ν) (key : ν → Nat) : Option ν → Nat
  | none => 0
  | some node => (nodes.filter (key · ≤ key node)).card

theorem rank_le (inode : Option ν) : rank nodes key inode ≤ nodes.card := by
  cases inode with
  | none => exact Nat.zero_le _
  | some node => exact Finset.card_filter_le _ _

theorem rank_lt {node : ν} (member : node ∈ nodes) {inode : Option ν}
    (below : LargestBelow nodes key (key node) inode) :
    rank nodes key inode < rank nodes key (some node) := by
  have self : node ∈ nodes.filter (key · ≤ key node) := by simp [member]
  cases inode with
  | none => exact Finset.card_pos.mpr ⟨node, self⟩
  | some before =>
      obtain ⟨-, lower, -⟩ := below
      refine Finset.card_lt_card (Finset.ssubset_iff_of_subset ?_ |>.mpr ⟨node, self, ?_⟩)
      · intro other
        simp only [Finset.mem_filter]
        rintro ⟨other_member, least⟩
        exact ⟨other_member, by omega⟩
      · simp only [Finset.mem_filter, not_and]
        omega

end Tree

/-! ## The search -/

/-- The `while` loop, which starts over from the last node once. -/
def searchLoop {ν : Type} (tree : Irbt ν) (status : ν → Int) :
    Nat → Bool → Option ν → Option (Option ν)
  | 0, _, _ => none
  | _ + 1, _, none => some none
  | fuel + 1, loop, some cnode =>
      if status cnode = CRB3_STATUS_WORKING then some (some cnode)
      else
        match tree.irbtPrev cnode with
        | none =>
            if loop then searchLoop tree status fuel loop none
            else searchLoop tree status fuel true tree.irbtLast
        | some inode => searchLoop tree status fuel loop (some inode)

/-- `CRB3Client::_NCHAlgCalc`, once the hash of the request is known; `none` if `fuel` turns of the
loop are not enough. -/
def nchSearch {ν : Type} (tree : Irbt ν) (status : ν → Int) (hash fuel : Nat) :
    Option (Option ν) :=
  let hash := hash % CRB3_MAX_HASH_NODES
  match tree.irbtPredecessor (hash + 1) with
  | none => searchLoop tree status fuel true tree.irbtLast
  | some inode => searchLoop tree status fuel false (some inode)

/-! ## The connection met first -/

/-- Going downwards from `start`, and then downwards from the largest key, the key `first` is met
before `second`. -/
def MetBefore (start first second : Nat) : Prop :=
  first ≤ start ∧ start < second ∨ second < first ∧ (first ≤ start ∨ start < second)

instance decidableMetBefore (start first second : Nat) : Decidable (MetBefore start first second) :=
  inferInstanceAs (Decidable (_ ∨ _))

section Search

variable {ν : Type} {tree : Irbt ν} {nodes : Finset ν} {key : ν → Nat} {status : ν → Int}
  {start : Nat}

/-- The working node met first, if any node works. -/
def MetFirst (nodes : Finset ν) (key : ν → Nat) (status : ν → Int) (start : Nat) :
    Option ν → Prop
  | none => ∀ node ∈ nodes, status node ≠ CRB3_STATUS_WORKING
  | some first => first ∈ nodes ∧ status first = CRB3_STATUS_WORKING ∧
      ∀ node ∈ nodes, status node = CRB3_STATUS_WORKING → node ≠ first →
        MetBefore start (key first) (key node)

theorem MetBefore.asymm {first second : Nat} (before : MetBefore start first second) :
    ¬ MetBefore start second first := by
  unfold MetBefore at *
  omega

/-- Only one node is met first. -/
theorem MetFirst.unique {selected other : Option ν} (first : MetFirst nodes key status start selected)
    (first' : MetFirst nodes key status start other) : selected = other := by
  cases selected with
  | none =>
      cases other with
      | none => rfl
      | some node => exact absurd first'.2.1 (first node first'.1)
  | some node =>
      cases other with
      | none => exact absurd first.2.1 (first' node first.1)
      | some node' =>
          by_contra differ
          have differ : node ≠ node' := fun same => differ (congrArg some same)
          exact (first.2.2 node' first'.1 first'.2.1 differ.symm).asymm
            (first'.2.2 node first.1 first.2.1 differ)

/-- The loop after it started over: no node up to `start` works, and no node above `inode`. -/
theorem searchLoop_over (lawful : tree.Lawful nodes key) (distinct : Set.InjOn key nodes)
    (low : ∀ node ∈ nodes, key node ≤ start → status node ≠ CRB3_STATUS_WORKING) (fuel : Nat)
    {inode : Option ν} {bound : Nat} (below : LargestBelow nodes key bound inode)
    (high : ∀ node ∈ nodes, bound ≤ key node → status node ≠ CRB3_STATUS_WORKING)
    (enough : rank nodes key inode < fuel) :
    ∃ selected, searchLoop tree status fuel true inode = some selected ∧
      MetFirst nodes key status start selected := by
  induction fuel generalizing inode bound with
  | zero => exact absurd enough (Nat.not_lt_zero _)
  | succ fuel induction =>
      cases inode with
      | none => exact ⟨none, rfl, fun node member => high node member (below node member)⟩
      | some cnode =>
          obtain ⟨member, -, largest⟩ := below
          have above : ∀ node ∈ nodes, key cnode < key node →
              status node ≠ CRB3_STATUS_WORKING := by
            intro node node_member greater
            refine high node node_member (Nat.le_of_not_lt fun inside => ?_)
            have := largest node node_member inside
            omega
          rw [searchLoop]
          by_cases works : status cnode = CRB3_STATUS_WORKING
          · rw [if_pos works]
            refine ⟨some cnode, rfl, member, works, fun node node_member node_works differ => ?_⟩
            have not_above := mt (above node node_member) (not_not_intro node_works)
            have not_low := mt (low node node_member) (not_not_intro node_works)
            have not_same : key node ≠ key cnode :=
              fun same => differ (distinct node_member member same)
            unfold MetBefore
            omega
          · rw [if_neg works]
            have down := lawful.prev cnode member
            have less := rank_lt member down
            have skipped : ∀ node ∈ nodes, key cnode ≤ key node →
                status node ≠ CRB3_STATUS_WORKING := by
              intro node node_member least
              rcases Nat.lt_or_eq_of_le least with greater | same
              · exact above node node_member greater
              · rwa [← distinct member node_member same]
            cases prev : tree.irbtPrev cnode with
            | none =>
                rw [prev] at down less
                exact induction down skipped (by omega)
            | some inode =>
                rw [prev] at down less
                exact induction down skipped (by omega)

theorem searchLoop_restart (lawful : tree.Lawful nodes key) (distinct : Set.InjOn key nodes)
    (low : ∀ node ∈ nodes, key node ≤ start → status node ≠ CRB3_STATUS_WORKING) {fuel : Nat}
    (enough : nodes.card < fuel) :
    ∃ selected, searchLoop tree status fuel true tree.irbtLast = some selected ∧
      MetFirst nodes key status start selected := by
  have below_sup : ∀ node ∈ nodes, key node < nodes.sup key + 1 :=
    fun node member => Nat.lt_succ_of_le (Finset.le_sup member)
  refine searchLoop_over lawful distinct low fuel (lawful.last _ below_sup) ?_
    (Nat.lt_of_le_of_lt (rank_le _) enough)
  intro node member outside
  exact absurd (below_sup node member) (Nat.not_lt.mpr outside)

/-- The loop before it starts over: no node between `inode` and `start` works. -/
theorem searchLoop_first (lawful : tree.Lawful nodes key) (distinct : Set.InjOn key nodes)
    (fuel : Nat) {cnode : ν} {bound : Nat}
    (below : LargestBelow nodes key bound (some cnode)) (bound_le : bound ≤ start + 1)
    (high : ∀ node ∈ nodes, bound ≤ key node → key node ≤ start →
      status node ≠ CRB3_STATUS_WORKING)
    (enough : rank nodes key (some cnode) + nodes.card < fuel) :
    ∃ selected, searchLoop tree status fuel false (some cnode) = some selected ∧
      MetFirst nodes key status start selected := by
  induction fuel generalizing cnode bound with
  | zero => exact absurd enough (Nat.not_lt_zero _)
  | succ fuel induction =>
      obtain ⟨member, inside, largest⟩ := below
      have above : ∀ node ∈ nodes, key cnode < key node → key node ≤ start →
          status node ≠ CRB3_STATUS_WORKING := by
        intro node node_member greater low
        refine high node node_member (Nat.le_of_not_lt fun inside => ?_) low
        have := largest node node_member inside
        omega
      rw [searchLoop]
      by_cases works : status cnode = CRB3_STATUS_WORKING
      · rw [if_pos works]
        refine ⟨some cnode, rfl, member, works, fun node node_member node_works differ => ?_⟩
        have not_above : key cnode < key node → ¬ key node ≤ start :=
          fun greater low => above node node_member greater low node_works
        have not_same : key node ≠ key cnode :=
          fun same => differ (distinct node_member member same)
        unfold MetBefore
        omega
      · rw [if_neg works]
        have down := lawful.prev cnode member
        have less := rank_lt member down
        have skipped : ∀ node ∈ nodes, key cnode ≤ key node → key node ≤ start →
            status node ≠ CRB3_STATUS_WORKING := by
          intro node node_member least
          rcases Nat.lt_or_eq_of_le least with greater | same
          · exact above node node_member greater
          · intro
            rwa [← distinct member node_member same]
        cases prev : tree.irbtPrev cnode with
        | none =>
            rw [prev] at down
            refine searchLoop_restart lawful distinct (fun node node_member low => ?_) (by omega)
            exact skipped node node_member (down node node_member) low
        | some inode =>
            rw [prev] at down less
            exact induction down (by omega) skipped (by omega)

/-- The search ends, and it finds the working node met first. -/
theorem nchSearch_metFirst (lawful : tree.Lawful nodes key) (distinct : Set.InjOn key nodes)
    (hash : Nat) {fuel : Nat} (enough : 2 * nodes.card < fuel) :
    ∃ selected, nchSearch tree status hash fuel = some selected ∧
      MetFirst nodes key status (hash % CRB3_MAX_HASH_NODES) selected := by
  have below := lawful.predecessor (hash % CRB3_MAX_HASH_NODES + 1)
  rw [nchSearch]
  cases predecessor : tree.irbtPredecessor (hash % CRB3_MAX_HASH_NODES + 1) with
  | none =>
      rw [predecessor] at below
      refine searchLoop_restart lawful distinct (fun node member low => ?_) (by omega)
      have := below node member
      omega
  | some cnode =>
      rw [predecessor] at below
      have least : rank nodes key (some cnode) ≤ nodes.card := rank_le _
      refine searchLoop_first lawful distinct fuel below le_rfl (fun node _ above low => ?_)
        (by omega)
      omega

/-- With one connection less at work, the others keep the requests they had. -/
theorem MetFirst.update [DecidableEq ν] {selected : Option ν}
    (first : MetFirst nodes key status start selected) {gone : ν} {idle : Int}
    (stopped : idle ≠ CRB3_STATUS_WORKING) (other : selected ≠ some gone) :
    MetFirst nodes key (Function.update status gone idle) start selected := by
  have still : ∀ node, Function.update status gone idle node = CRB3_STATUS_WORKING →
      status node = CRB3_STATUS_WORKING := by
    intro node works
    by_cases same : node = gone
    · rw [same, Function.update_self] at works
      exact absurd works stopped
    · rwa [Function.update_of_ne same] at works
  cases selected with
  | none => exact fun node member => mt (still node) (first node member)
  | some node =>
      obtain ⟨member, works, before⟩ := first
      refine ⟨member, ?_, fun other member works => before other member (still other works)⟩
      rwa [Function.update_of_ne (fun same => other (congrArg some same))]

end Search

/-- For every hash the search of `_NCHAlgCalc` ends; it returns the working connection met first
going cyclically downwards from the hash, and `NULL` exactly when none works; and while a connection
is taken out of work, only the requests that had selected it select another one. -/
theorem nchAlgCalc_selects {ν : Type} [DecidableEq ν] (tree : Irbt ν) (nodes : Finset ν)
    (key : ν → Nat) (lawful : tree.Lawful nodes key) (distinct : Set.InjOn key nodes)
    (status : ν → Int) (hash : Nat) :
    ∃ selected, (∀ fuel > 2 * nodes.card, nchSearch tree status hash fuel = some selected) ∧
      (∀ cnode, selected = some cnode ↔
        cnode ∈ nodes ∧ status cnode = CRB3_STATUS_WORKING ∧
          ∀ node ∈ nodes, status node = CRB3_STATUS_WORKING → node ≠ cnode →
            MetBefore (hash % CRB3_MAX_HASH_NODES) (key cnode) (key node)) ∧
      (selected = none ↔ ∀ node ∈ nodes, status node ≠ CRB3_STATUS_WORKING) ∧
      ∀ gone idle, idle ≠ CRB3_STATUS_WORKING → selected ≠ some gone →
        ∀ fuel > 2 * nodes.card,
          nchSearch tree (Function.update status gone idle) hash fuel = some selected := by
  obtain ⟨selected, -, first⟩ : ∃ selected,
      nchSearch tree status hash (2 * nodes.card + 1) = some selected ∧
        MetFirst nodes key status (hash % CRB3_MAX_HASH_NODES) selected :=
    nchSearch_metFirst lawful distinct hash (Nat.lt_succ_self _)
  refine ⟨selected, fun fuel enough => ?_, fun cnode => ?_, ?_, ?_⟩
  · obtain ⟨found, ends, found_first⟩ := nchSearch_metFirst lawful distinct hash enough
    rw [ends, found_first.unique first]
  · constructor
    · rintro rfl
      exact first
    · intro met
      have here : MetFirst nodes key status (hash % CRB3_MAX_HASH_NODES) (some cnode) := met
      exact first.unique here
  · constructor
    · rintro rfl
      exact first
    · intro idle
      have here : MetFirst nodes key status (hash % CRB3_MAX_HASH_NODES) none := idle
      exact first.unique here
  · intro gone idle stopped other fuel enough
    obtain ⟨found, ends, found_first⟩ := nchSearch_metFirst lawful distinct hash enough
    rw [ends, found_first.unique (first.update stopped other)]

/-- The tree functions on a list of nodes. -/
def Irbt.ofList {ν : Type} (nodes : List ν) (key : ν → Nat) : Irbt ν where
  irbtPredecessor bound := (nodes.filter (key · < bound)).argmax key
  irbtPrev node := (nodes.filter (key · < key node)).argmax key
  irbtLast := nodes.argmax key

theorem largestBelow_argmax {ν : Type} [DecidableEq ν] (nodes : List ν) (key : ν → Nat)
    (bound : Nat) :
    LargestBelow nodes.toFinset key bound ((nodes.filter (key · < bound)).argmax key) := by
  have mem_below : ∀ {node}, node ∈ nodes.filter (key · < bound) ↔
      node ∈ nodes ∧ key node < bound := by simp
  cases found : (nodes.filter (key · < bound)).argmax key with
  | none =>
      intro node member
      refine Nat.le_of_not_lt fun inside => ?_
      have listed := mem_below.mpr ⟨List.mem_toFinset.mp member, inside⟩
      rw [List.argmax_eq_none.mp found] at listed
      cases listed
  | some largest =>
      have listed := mem_below.mp (List.argmax_mem found)
      refine ⟨List.mem_toFinset.mpr listed.1, listed.2, fun node member inside => ?_⟩
      exact List.le_of_mem_argmax (mem_below.mpr ⟨List.mem_toFinset.mp member, inside⟩) found

theorem Irbt.ofList_lawful {ν : Type} [DecidableEq ν] (nodes : List ν) (key : ν → Nat) :
    (Irbt.ofList nodes key).Lawful nodes.toFinset key where
  predecessor := largestBelow_argmax nodes key
  prev node _ := largestBelow_argmax nodes key (key node)
  last bound inside := by
    have all : nodes.filter (key · < bound) = nodes := by
      rw [List.filter_eq_self]
      intro node member
      simpa using inside node (List.mem_toFinset.mpr member)
    have largest := largestBelow_argmax nodes key bound
    rwa [all] at largest

/-- The connection with hash 3 is not at work, so the hash 7 selects the one with hash 900. -/
theorem nchAlgCalc_selects_around :
    nchSearch (Irbt.ofList [500, 3, 900] id)
      (fun key => if key = 3 then CRB3_STATUS_EXCEPTION else CRB3_STATUS_WORKING) 7 7 =
        some (some 900) := by
  obtain ⟨selected, ends, select, -⟩ := nchAlgCalc_selects (Irbt.ofList [500, 3, 900] id)
    [500, 3, 900].toFinset id (Irbt.ofList_lawful _ _) (Set.injOn_id _)
    (fun key => if key = 3 then CRB3_STATUS_EXCEPTION else CRB3_STATUS_WORKING) 7
  rw [ends 7 (by decide), (select 900).mpr (by decide)]

end CommonLib
