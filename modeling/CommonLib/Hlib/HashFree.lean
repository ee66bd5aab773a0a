import CommonLib.Hlib.HashTable

/-!
# The free elements of the hash table

The stack `m_qFreeBuffer` may name an element several times and may name used elements, which are
passed over when a free one is taken.
-/

namespace CommonLib
namespace HashTable

variable {κ β : Type} {table : HashTable κ β}

/-- The stack lists every free element. -/
def Listed (table : HashTable κ β) : Prop :=
  ∀ a < table.dictSize, (table.dict a).isUsing = false → a ∈ table.freeBuffer.items

/-! ## Taking an element -/

theorem acquireBuffer_some {p : Nat} {freeBuffer : THSP Nat}
    (empty : table.freeBuffer.items = [])
    (acquired : table.acquireBuffer = some (p, freeBuffer)) :
    freeBuffer.size = table.freeBuffer.size ∧
      ∀ q ∈ p :: freeBuffer.items, q < table.dictSize ∧ (table.dict q).isUsing = false := by
  have pushed (range : List Nat) (stack : THSP Nat) :
      (range.foldl (fun stack p =>
          if (table.dict p).isUsing then stack else (stack.push p).2) stack).size = stack.size ∧
        ∀ q ∈ (range.foldl (fun stack p =>
          if (table.dict p).isUsing then stack else (stack.push p).2) stack).items,
          q ∈ stack.items ∨ q ∈ range ∧ (table.dict q).isUsing = false := by
    induction range generalizing stack with
    | nil => exact ⟨rfl, fun q inside => .inl inside⟩
    | cons first range induction =>
        rw [List.foldl_cons]
        obtain ⟨size_eq, items⟩ :=
          induction (if (table.dict first).isUsing then stack else (stack.push first).2)
        refine ⟨?_, fun q inside => ?_⟩
        · rw [size_eq]
          split
          · rfl
          · exact THSP.push_size ..
        · rcases items q inside with inside | ⟨inside, free⟩
          · by_cases isUsing : (table.dict first).isUsing = true
            · rw [if_pos isUsing] at inside
              exact .inl inside
            · rw [if_neg isUsing, THSP.push_items] at inside
              split at inside
              · exact .inl inside
              · rcases List.mem_cons.mp inside with rfl | inside
                · exact .inr ⟨.head _, Bool.eq_false_iff.mpr isUsing⟩
                · exact .inl inside
          · exact .inr ⟨.tail _ inside, free⟩
  obtain ⟨size_eq, items⟩ := pushed (List.range (table.dictSize - 1)) table.freeBuffer
  obtain ⟨items_eq, size_eq'⟩ := THSP.popValue_eq_some.mp acquired
  refine ⟨size_eq'.trans size_eq, fun q inside => ?_⟩
  rw [← items_eq] at inside
  rcases items q inside with absent | ⟨inside, free⟩
  · rw [empty] at absent
    exact absurd absent List.not_mem_nil
  · have := List.mem_range.mp inside
    exact ⟨by omega, free⟩

/-- An element that has been taken is free. -/
theorem takeFree_some {p : Nat} {freeBuffer : THSP Nat}
    (inside : ∀ q ∈ table.freeBuffer.items, q < table.dictSize)
    (taken : table.takeFree = some (p, freeBuffer)) :
    (table.dict p).isUsing = false ∧ freeBuffer.size = table.freeBuffer.size ∧
      ∀ q ∈ p :: freeBuffer.items, q < table.dictSize := by
  obtain ⟨size_eq, popped, exhausted⟩ :=
    table.freeBuffer.popWhile_spec fun p => (table.dict p).isUsing
  unfold takeFree at taken
  split at taken
  · rename_i item rest pop_eq
    rw [pop_eq] at popped size_eq
    obtain ⟨free, skipped, -, items_eq⟩ := popped item rfl
    obtain ⟨rfl, rfl⟩ := Prod.mk.inj (Option.some.inj taken)
    refine ⟨free, size_eq, fun q among => inside q ?_⟩
    rw [items_eq]
    exact List.mem_append_right _ among
  · rename_i rest pop_eq
    rw [pop_eq] at exhausted size_eq
    obtain ⟨size_eq', items⟩ := acquireBuffer_some (exhausted rfl).2 taken
    exact ⟨(items p (.head _)).2, size_eq'.trans size_eq, fun q among => (items q among).1⟩

/-- While every free element is listed, one of them is taken, and the others stay listed. -/
theorem Listed.takeFree (listed : table.Listed) {a : Nat} (a_lt : a < table.dictSize)
    (free : (table.dict a).isUsing = false) :
    ∃ p freeBuffer, table.takeFree = some (p, freeBuffer) ∧
      ∀ q < table.dictSize, (table.dict q).isUsing = false → q ≠ p → q ∈ freeBuffer.items := by
  obtain ⟨-, popped, exhausted⟩ :=
    table.freeBuffer.popWhile_spec fun p => (table.dict p).isUsing
  have pair_eq : table.freeBuffer.popWhile (fun p => (table.dict p).isUsing) =
      ((table.freeBuffer.popWhile fun p => (table.dict p).isUsing).1,
        (table.freeBuffer.popWhile fun p => (table.dict p).isUsing).2) := rfl
  cases result : (table.freeBuffer.popWhile fun p => (table.dict p).isUsing).1 with
  | none =>
      have isUsing := (exhausted result).1 a (listed a a_lt free)
      rw [free] at isUsing
      cases isUsing
  | some p =>
      obtain ⟨-, skipped, allUsed, items_eq⟩ := popped p result
      rw [result] at pair_eq
      refine ⟨p, _, by rw [HashTable.takeFree, pair_eq], fun q q_lt qFree ne => ?_⟩
      have inside := listed q q_lt qFree
      rw [items_eq] at inside
      rcases List.mem_append.mp inside with inside | inside
      · have isUsing := allUsed q inside
        rw [qFree] at isUsing
        cases isUsing
      · exact (List.mem_cons.mp inside).resolve_left ne

/-! ## Releasing an element -/

theorem sweep_subset (isUsing : Nat → Bool) (rest : Nat) (entries : List Nat) :
    ∀ q ∈ (sweep isUsing rest entries).1, q ∈ entries := by
  induction rest generalizing entries with
  | zero =>
      cases entries with
      | nil => exact fun q inside => inside
      | cons head entries => exact fun q inside => inside
  | succ rest induction =>
      cases entries with
      | nil => exact fun q inside => inside
      | cons head entries =>
          intro q inside
          rw [sweep] at inside
          by_cases kept : isUsing head = true
          · rw [if_pos kept] at inside
            rcases List.mem_cons.mp inside with rfl | inside
            · exact .head _
            · exact .tail _ (induction _ q inside)
          · rw [if_neg kept] at inside
            have inside' := induction _ q inside
            cases last_eq : entries.getLast? with
            | none =>
                rw [last_eq] at inside'
                exact absurd inside' List.not_mem_nil
            | some last =>
                rw [last_eq] at inside'
                rcases List.mem_cons.mp inside' with rfl | inside'
                · exact .tail _ (List.mem_of_getLast? last_eq)
                · exact .tail _ (List.mem_of_mem_dropLast inside')

theorem releaseNode_dict (table : HashTable κ β) (node : Nat) :
    (table.releaseNode node).dict =
      modify table.dict node fun element => { element with isUsing := false } := by
  unfold releaseNode releaseBuffer
  dsimp only
  split <;> rfl

theorem releaseNode_size (table : HashTable κ β) (node : Nat) :
    (table.releaseNode node).dictSize = table.dictSize ∧
      (table.releaseNode node).mask = table.mask := by
  unfold releaseNode releaseBuffer
  dsimp only
  split <;> exact ⟨rfl, rfl⟩

theorem foldl_push (entries : List Nat) (stack : THSP Nat) :
    (entries.foldl (fun stack p => (stack.push p).2) stack).size = stack.size ∧
      ∀ q ∈ (entries.foldl (fun stack p => (stack.push p).2) stack).items,
        q ∈ stack.items ∨ q ∈ entries := by
  induction entries generalizing stack with
  | nil => exact ⟨rfl, fun q inside => .inl inside⟩
  | cons first entries induction =>
      obtain ⟨size_eq, items⟩ := induction (stack.push first).2
      refine ⟨size_eq.trans (THSP.push_size ..), fun q inside => ?_⟩
      rcases items q inside with inside | inside
      · rw [THSP.push_items] at inside
        split at inside
        · exact .inl inside
        · rcases List.mem_cons.mp inside with rfl | inside
          · exact .inr (.head _)
          · exact .inl inside
      · exact .inr (.tail _ inside)

theorem releaseNode_items {node q : Nat} (inside : q ∈ (table.releaseNode node).freeBuffer.items) :
    q ∈ table.freeBuffer.items ∨ q = node := by
  have pushed {stack : THSP Nat} (inside : q ∈ (stack.push node).2.items) :
      q ∈ stack.items ∨ q = node := by
    rw [THSP.push_items] at inside
    split at inside
    · exact .inl inside
    · exact (List.mem_cons.mp inside).symm
  unfold releaseNode releaseBuffer at inside
  dsimp only at inside
  split at inside
  · rcases pushed inside with inside | rfl
    · rcases (foldl_push _ _).2 q inside with absent | inside
      · exact absurd absent List.not_mem_nil
      · exact .inl (List.mem_reverse.mp (sweep_subset _ _ _ q inside))
    · exact .inr rfl
  · exact pushed inside

theorem releaseNode_freeSize (table : HashTable κ β) (node : Nat) :
    (table.releaseNode node).freeBuffer.size = table.freeBuffer.size := by
  unfold releaseNode releaseBuffer
  dsimp only
  split
  · exact (THSP.push_size ..).trans (foldl_push _ _).1
  · exact THSP.push_size ..

/-- While the stack has a place, the released element is pushed. -/
theorem releaseNode_of_not_full (notFull : table.freeBuffer.isFull = false) (node : Nat) :
    (table.releaseNode node).freeBuffer.items = node :: table.freeBuffer.items ∧
      (table.releaseNode node).count = table.count - 1 := by
  unfold releaseNode
  dsimp only
  rw [if_neg (by rw [notFull]; decide)]
  refine ⟨?_, rfl⟩
  rw [THSP.push_items, if_neg]
  simpa [THSP.isFull] using notFull

end HashTable
end CommonLib
