import CommonLib.Udp.RbInsert

/-!
# The loop of `jsw_rbinsert`

The tree below `head` is kept red-black, with its nodes in their order, and the walk follows the
search for the new data.
-/

namespace CommonLib.JswRbtree

open CommonLib.Tree

variable {α : Type} {cmp : α → α → Int} {dup : α → α} {fresh : ℕ} {data : α}
  {memory₀ memory memory' : RbMemory α} {tree₀ sub : Tree ℕ} {frames : List (Frame ℕ)}
  {walk : Descent α}

/-- The path follows the search for the data. -/
def OnSearch (cmp : α → α → Int) (memory : RbMemory α) (data : α) (frames : List (Frame ℕ)) :
    Prop :=
  ∀ frame ∈ frames, ∃ found, dataAt memory frame.label = some found ∧ cmp found data ≠ 0 ∧
    frame.side = dirOf (cmp found data)

/-- Between the passes of the loop. -/
structure Standing (cmp : α → α → Int) (data : α) (memory₀ : RbMemory α) (tree₀ : Tree ℕ)
    (memory : RbMemory α) (frames : List (Frame ℕ)) (sub : Tree ℕ) : Prop where
  rebuilt : Rebuilt (plug [headFrame] tree₀) (plug (frames ++ [headFrame]) sub) memory₀ memory
  nodup : (plug (frames ++ [headFrame]) sub).Nodup
  balanced : ∃ height, sub.RedBlack height ∧ Accepts frames height ∧ ¬(sub.IsRed ∧ EndsRed frames)
  search : OnSearch cmp memory₀ data frames

/-- The variables of the loop are those of the path. -/
structure Aligned (walk : Descent α) (memory : RbMemory α) (frames : List (Frame ℕ))
    (sub : Tree ℕ) : Prop where
  q : walk.q = ptr sub
  memory : walk.memory = memory
  p : walk.p = top 0 frames
  g : walk.g = top 0 frames.tail
  t : walk.t = top head (frames.drop 2)
  dir : ∀ frame rest, frames = frame :: rest → walk.dir = frame.side
  last : ∀ frame frame' rest, frames = frame :: frame' :: rest → walk.last = frame'.side

/-- The walk does not make the root of the tree red. -/
def Quiet : Tree ℕ → Prop
  | .nil => False
  | .node _ red left right => red = 0 ∧ ¬(left.IsRed ∧ right.IsRed)

theorem quiet_join {side : Side} {a : ℕ} {red : Int} {child sibling : Tree ℕ} :
    Quiet (join side a red child sibling) ↔ red = 0 ∧ ¬(child.IsRed ∧ sibling.IsRed) := by
  cases side with
  | left => exact Iff.rfl
  | right =>
      simp only [join, Quiet]
      tauto

/-- The nodes that the walk passed were split if both of their children were red. -/
structure Calm (frames : List (Frame ℕ)) (sub : Tree ℕ) : Prop where
  root : frames = [] → sub ≠ .nil ∧ ¬sub.IsRed
  child : sub.IsRed → ∀ frame rest, frames = frame :: rest → ¬frame.sibling.IsRed
  uncle : EndsRed frames → Quiet sub ∨
    ∃ frame frame' rest, frames = frame :: frame' :: rest ∧ ¬frame'.sibling.IsRed

/-- What the loop ends with: the old nodes, one of which has the data, or the new one among them
where the search came to its end. -/
inductive Outcome (cmp : α → α → Int) (dup : α → α) (fresh : ℕ) (data : α)
    (memory₀ : RbMemory α) (tree₀ : Tree ℕ) (memory' : RbMemory α) : Prop
  | found (tree' : Tree ℕ) (a : ℕ) (found : α) (height : ℕ)
      (rebuilt : Rebuilt (plug [headFrame] tree₀) (plug [headFrame] tree') memory₀ memory')
      (balanced : tree'.RedBlack height) (inside : a ∈ tree')
      (data_eq : dataAt memory₀ a = some found) (same : cmp found data = 0)
  | added (tree' : Tree ℕ) (frames : List (Frame ℕ)) (height : ℕ)
      (linked : Linked memory' (plug [headFrame] tree')) (balanced : tree'.RedBlack height)
      (labels₀ : tree₀.labels = before frames ++ after frames)
      (labels : tree'.labels = before frames ++ fresh :: after frames)
      (search : OnSearch cmp memory₀ data frames)
      (old : ∀ a, a ≠ fresh → dataAt memory' a = dataAt memory₀ a)
      (new : dataAt memory' fresh = some (dup data))
      (outside : ∀ a, a ∉ plug [headFrame] tree₀ → a ≠ fresh → memory' a = memory₀ a)

/-! ## Passes -/

theorem Standing.labels_eq (standing : Standing cmp data memory₀ tree₀ memory frames sub) :
    (plug frames sub).labels = tree₀.labels := by
  have labels := standing.rebuilt.labels
  rw [plug_append] at labels
  simpa [labels_plug, before, after, headFrame] using labels

theorem Standing.linked (standing : Standing cmp data memory₀ tree₀ memory frames sub) :
    Linked memory sub ∧ LinkedPath memory (frames ++ [headFrame]) (ptr sub) :=
  linked_plug.mp standing.rebuilt.linked

/-- One level down. -/
theorem Standing.down {side : Side} {a : ℕ} {red : Int} {child sibling : Tree ℕ} {found : α}
    (standing : Standing cmp data memory₀ tree₀ memory frames (join side a red child sibling))
    (data_eq : dataAt memory₀ a = some found) (differ : cmp found data ≠ 0)
    (side_eq : side = dirOf (cmp found data)) :
    Standing cmp data memory₀ tree₀ memory (⟨side, a, red, sibling⟩ :: frames) child where
  rebuilt := standing.rebuilt
  nodup := standing.nodup
  balanced := redBlack_cons.mp standing.balanced
  search := by
    intro frame among
    rcases List.mem_cons.mp among with rfl | among
    · exact ⟨found, data_eq, differ, side_eq⟩
    · exact standing.search frame among

/-- The next state of the loop. -/
def advance (walk : Descent α) (memory : RbMemory α) (q : ℕ) (node : RbNode α) (dir : Side) :
    Descent α :=
  { t := if walk.g ≠ 0 then walk.g else walk.t, g := walk.p, p := q, q := node.link dir,
    dir := dir, last := walk.dir, memory := memory }

/-- The pointers stay those of the path when the loop goes on without a rotation. -/
theorem Aligned.advance {side : Side} {a : ℕ} {red : Int} {child sibling : Tree ℕ}
    {node : RbNode α} (aligned : Aligned walk memory' frames sub)
    (linked : LinkedPath memory (frames ++ [headFrame]) a) (link_eq : node.link side = ptr child) :
    Aligned (advance walk memory a node side) memory (⟨side, a, red, sibling⟩ :: frames) child where
  q := link_eq
  memory := rfl
  p := rfl
  g := aligned.p
  t := by
    cases frames with
    | nil => exact (if_neg (not_not.mpr aligned.g)).trans aligned.t
    | cons frame frames =>
        cases frames with
        | nil => exact (if_neg (not_not.mpr aligned.g)).trans aligned.t
        | cons frame' frames =>
            have ne : walk.g ≠ 0 := aligned.g.symm ▸ linked.2.2.1.1
            exact (if_pos ne).trans aligned.g
  dir := by
    rintro frame rest ⟨⟩
    rfl
  last := by
    rintro frame frame' rest ⟨⟩
    exact aligned.dir _ _ rfl

theorem insertFrom_pass {fuel q : ℕ} {memory₁ memory₂ : RbMemory α} {node : RbNode α}
    (visited : visit dup fresh data walk = some (q, memory₁))
    (repaired : repair walk q memory₁ = some memory₂) (here : memory₂ q = some node) :
    insertFrom cmp dup fresh data (fuel + 1) walk =
      if cmp node.data data = 0 then some memory₂
      else insertFrom cmp dup fresh data fuel
        (advance walk memory₂ q node (dirOf (cmp node.data data))) := by
  simp only [insertFrom, visited, repaired, here, bind, Option.bind_some]
  rfl

theorem isRed_top (linked : LinkedPath memory (frames ++ [headFrame]) (ptr sub)) :
    isRed memory (top 0 frames) = some (decide (EndsRed frames)) := by
  cases frames with
  | nil => rfl
  | cons frame frames =>
      obtain ⟨⟨ne, node, here, red_eq, -⟩, -⟩ := linked
      rw [isRed, top, if_neg ne, here]
      simp [EndsRed, red_eq, beq_eq_decide]

theorem exists_data (linked : Linked memory sub) {a : ℕ} (inside : a ∈ sub)
    (same : ∀ a, dataAt memory a = dataAt memory₀ a) :
    ∃ node, memory a = some node ∧ dataAt memory₀ a = some node.data := by
  obtain ⟨node, here⟩ := linked.allocated inside
  refine ⟨node, here, ?_⟩
  rw [← same, dataAt, here]
  rfl

/-- The loop comes to an end from every place on its path, below which stand at most `n` nodes. -/
def Completes (cmp : α → α → Int) (dup : α → α) (fresh : ℕ) (data : α) (memory₀ : RbMemory α)
    (tree₀ : Tree ℕ) (n fuel : ℕ) : Prop :=
  ∀ {frames : List (Frame ℕ)} {sub : Tree ℕ} {memory : RbMemory α} {walk : Descent α},
    sub.labels.length ≤ n → Standing cmp data memory₀ tree₀ memory frames sub →
      Aligned walk memory frames sub → Calm frames sub →
        ∃ memory', insertFrom cmp dup fresh data fuel walk = some memory' ∧
          Outcome cmp dup fresh data memory₀ tree₀ memory'

theorem Standing.found {a : ℕ} {found : α}
    (standing : Standing cmp data memory₀ tree₀ memory frames sub) (inside : a ∈ sub)
    (data_eq : dataAt memory₀ a = some found) (same : cmp found data = 0) :
    Outcome cmp dup fresh data memory₀ tree₀ memory := by
  obtain ⟨height, balanced⟩ := redBlack_plug.mpr standing.balanced
  have rebuilt := standing.rebuilt
  rw [plug_append] at rebuilt
  exact .found (plug frames sub) a found height rebuilt balanced (mem_plug.mpr (.inl inside))
    data_eq same

/-- The node at the end of the path, seen from the side to which the search goes on. -/
theorem Standing.exists_seen {a : ℕ} {red : Int} {left right : Tree ℕ}
    (standing : Standing cmp data memory₀ tree₀ memory frames (.node a red left right)) :
    ∃ found child sibling, dataAt memory₀ a = some found ∧
      Tree.node a red left right = join (dirOf (cmp found data)) a red child sibling := by
  obtain ⟨node, -, data_eq⟩ :=
    exists_data standing.linked.1 (mem_node.mpr (.inl rfl)) standing.rebuilt.data
  obtain ⟨child, sibling, shape⟩ := exists_side (dirOf (cmp node.data data)) a red left right
  exact ⟨node.data, child, sibling, data_eq, shape⟩

/-- A pass that neither splits a node nor repairs anything. -/
theorem stay_pass (fuel : ℕ) {a : ℕ} {side : Side} {red : Int} {child sibling : Tree ℕ} {found : α}
    (standing : Standing cmp data memory₀ tree₀ memory frames (join side a red child sibling))
    (data_eq : dataAt memory₀ a = some found) (side_eq : side = dirOf (cmp found data))
    (black : ¬(child.IsRed ∧ sibling.IsRed)) (q_eq : walk.q = a) (memory_eq : walk.memory = memory)
    (p_eq : walk.p = top 0 frames) :
    ∃ node, node.link side = ptr child ∧
      insertFrom cmp dup fresh data (fuel + 1) walk =
        if cmp found data = 0 then some memory
        else insertFrom cmp dup fresh data fuel (advance walk memory a node side) := by
  obtain ⟨linked, path⟩ := standing.linked
  obtain ⟨⟨-, node, here, -, link_eq, -⟩, -⟩ := linked_join.mp linked
  have red_eq := linked.isRed
  rw [ptr_join] at red_eq
  have visited : visit dup fresh data walk = some (a, memory) := by
    rw [← memory_eq] at linked ⊢
    exact visit_stay linked q_eq black
  have repaired : repair walk a memory = some memory := by
    refine repair_none red_eq (p_eq ▸ isRed_top path) fun both => ?_
    obtain ⟨height, -, -, apart⟩ := standing.balanced
    exact apart ⟨of_decide_eq_true both.1, of_decide_eq_true both.2⟩
  have found_eq : node.data = found := by
    have same := standing.rebuilt.data a
    rw [data_eq, dataAt, here] at same
    exact Option.some.inj same
  refine ⟨node, link_eq, ?_⟩
  rw [side_eq, ← found_eq]
  exact insertFrom_pass visited repaired here

/-- After a single rotation `t` is not on the path; the walk is at a black node. -/
theorem quiet_completes {n fuel : ℕ} {second third : Frame ℕ}
    (rest : Completes cmp dup fresh data memory₀ tree₀ n fuel)
    (standing : Standing cmp data memory₀ tree₀ memory (second :: third :: frames) sub)
    (quiet : Quiet sub) (size : sub.labels.length ≤ n + 1) (q_eq : walk.q = ptr sub)
    (memory_eq : walk.memory = memory) (p_eq : walk.p = second.label) (g_eq : walk.g = third.label)
    (dir_eq : walk.dir = second.side) :
    ∃ memory', insertFrom cmp dup fresh data (fuel + 1) walk = some memory' ∧
      Outcome cmp dup fresh data memory₀ tree₀ memory' := by
  cases sub with
  | nil => exact absurd quiet id
  | node a red left right =>
      obtain ⟨found, child, sibling, data_eq, shape⟩ := standing.exists_seen
      rw [shape] at standing size quiet q_eq
      obtain ⟨rfl, black⟩ := quiet_join.mp quiet
      rw [ptr_join] at q_eq
      obtain ⟨node, link_eq, pass⟩ := stay_pass fuel standing data_eq rfl black q_eq memory_eq p_eq
      rw [pass]
      by_cases same : cmp found data = 0
      · rw [if_pos same]
        exact ⟨memory, rfl, standing.found (mem_join.mpr (.inl rfl)) data_eq same⟩
      · rw [if_neg same]
        have third_ne : third.label ≠ 0 := standing.linked.2.2.2.1.1
        refine rest ?_ (standing.down data_eq same rfl) ⟨link_eq, rfl, rfl, p_eq, ?_, ?_, ?_⟩
          ⟨fun empty => absurd empty (List.cons_ne_nil _ _), ?_, ?_⟩
        · rw [length_join] at size
          omega
        · simp [advance, g_eq, third_ne, top]
        · rintro frame rest ⟨⟩
          rfl
        · rintro frame frame' rest ⟨⟩
          exact dir_eq
        · rintro red frame rest ⟨⟩ red'
          exact black ⟨red, red'⟩
        · exact fun ends => absurd ends (by simp [EndsRed])

/-- After a double rotation the walk comes to a node again that it passed, and then to a black
one. -/
theorem turned_completes {n fuel a : ℕ} {first : Frame ℕ} {side : Side} {child sibling : Tree ℕ}
    {found : α} (rest : Completes cmp dup fresh data memory₀ tree₀ n fuel)
    (standing : Standing cmp data memory₀ tree₀ memory (first :: frames)
      (join side a 1 child sibling))
    (data_eq : dataAt memory₀ a = some found) (differ : cmp found data ≠ 0)
    (side_eq : side = dirOf (cmp found data)) (quiet : Quiet child)
    (size : child.labels.length ≤ n + 1) (q_eq : walk.q = a) (memory_eq : walk.memory = memory)
    (p_eq : walk.p = first.label) :
    ∃ memory', insertFrom cmp dup fresh data (fuel + 2) walk = some memory' ∧
      Outcome cmp dup fresh data memory₀ tree₀ memory' := by
  have black : ¬(child.IsRed ∧ sibling.IsRed) := by
    obtain ⟨height, redBlack, -⟩ := standing.balanced
    exact fun both => (redBlack_red.mp redBlack).1.1 both.1
  obtain ⟨node, link_eq, pass⟩ :=
    stay_pass (fuel + 1) standing data_eq side_eq black q_eq memory_eq p_eq
  rw [pass, if_neg differ]
  exact quiet_completes rest (standing.down data_eq differ side_eq) quiet size link_eq rfl rfl p_eq
    rfl

/-! ## The loop -/

/-- What stands around a red node which is to get a red child. -/
theorem accepts_red {first second : Frame ℕ} {height : ℕ}
    (accepts : Accepts (first :: second :: frames) height) (red : first.bf = 1) :
    (first.sibling.RedBlack height ∧ ¬first.sibling.IsRed) ∧ second.sibling.RedBlack height ∧
      second.bf = 0 ∧ Accepts frames (height + 1) := by
  obtain ⟨sibling, ⟨-, black, ends, above⟩ | ⟨black, -⟩⟩ := accepts
  · obtain ⟨sibling', ⟨red', -⟩ | ⟨black', above'⟩⟩ := above
    · exact absurd red' ends
    · exact ⟨⟨sibling, black⟩, sibling', black', above'⟩
  · exact absurd (black.symm.trans red) (by decide)

/-- The repair makes the tree red-black again. -/
theorem repair_rebuilt {first second : Frame ℕ} {height : ℕ} {visited : Tree ℕ}
    (aligned : Aligned walk memory' (first :: second :: frames) sub)
    (linked : Linked memory (plug (first :: second :: frames ++ [headFrame]) visited))
    (nodup : (plug (first :: second :: frames ++ [headFrame]) visited).Nodup)
    (redBlack : visited.RedBlack height) (red : visited.IsRed)
    (accepts : Accepts (first :: second :: frames) height) (red' : first.bf = 1)
    (uncle : ¬second.sibling.IsRed) :
    ∃ memory' tree', repair walk (ptr visited) memory = some memory' ∧
      Rebuilt (plug (first :: second :: frames ++ [headFrame]) visited)
        (plug (frames ++ [headFrame]) tree') memory memory' ∧
      tree'.RedBlack (height + 1) ∧ ¬tree'.IsRed ∧
      (first.side = second.side ∧
          tree' = join second.side first.label 0 visited
            (join second.side second.label 1 first.sibling second.sibling) ∨
        first.side = second.side.other ∧ ∃ q colour near far,
          visited = join second.side q colour near far ∧
          tree' = join second.side q 0 (join second.side first.label 1 first.sibling near)
            (join second.side second.label 1 far second.sibling)) := by
  obtain ⟨⟨sibling, black⟩, sibling', -⟩ := accepts_red accepts red'
  obtain ⟨owner, others, split, owner_eq, -⟩ := exists_owner frames
  have near : Near walk first second owner :=
    ⟨aligned.p, aligned.g, aligned.t.trans owner_eq.symm, aligned.last _ _ _ rfl⟩
  simp only [List.cons_append, split] at linked nodup ⊢
  by_cases outer : first.side = second.side
  · obtain ⟨memory', made, rebuilt⟩ := repair_single linked nodup near red red' outer
    refine ⟨memory', _, made, rebuilt, redBlack_black.mpr ⟨redBlack, redBlack_red.mpr
      ⟨⟨black, sibling⟩, uncle, sibling'⟩⟩, by simp, .inl ⟨outer, rfl⟩⟩
  · have inner : first.side = second.side.other := eq_other_of_ne (Ne.symm outer)
    cases visited with
    | nil => exact absurd red not_isRed_nil
    | node q colour left right =>
        obtain ⟨near', far, shape⟩ := exists_side second.side q colour left right
        rw [shape] at linked nodup redBlack red ⊢
        obtain rfl : colour = 1 := isRed_join.mp red
        obtain ⟨⟨near_black, near_redBlack⟩, far_black, far_redBlack⟩ := redBlack_red.mp redBlack
        obtain ⟨memory', made, rebuilt⟩ := repair_double linked nodup near rfl red' inner
        rw [ptr_join]
        exact ⟨memory', _, made, rebuilt, redBlack_black.mpr
          ⟨redBlack_red.mpr ⟨⟨black, sibling⟩, near_black, near_redBlack⟩,
            redBlack_red.mpr ⟨⟨far_black, far_redBlack⟩, uncle, sibling'⟩⟩, by simp,
          .inr ⟨inner, q, 1, near', far, rfl, rfl⟩⟩

theorem nodup_new {first : Frame ℕ} (nodup : (plug (first :: frames) .nil).Nodup)
    (new : fresh ∉ plug (first :: frames) .nil) :
    (plug (first :: frames) (.node fresh 1 .nil .nil)).Nodup := by
  rw [mem_def, labels_plug] at new
  rw [Tree.Nodup, labels_plug] at nodup ⊢
  simp only [labels, List.append_nil, List.nil_append, List.append_assoc,
    List.singleton_append] at nodup new ⊢
  exact List.nodup_middle.mpr (List.nodup_cons.mpr ⟨new, nodup⟩)

/-- The pass that adds the new node. -/
theorem new_completes {first : Frame ℕ} (fuel : ℕ) (fresh_ne : fresh ≠ 0)
    (new : fresh ∉ plug [headFrame] tree₀) (dup_same : cmp (dup data) data = 0)
    (standing : Standing cmp data memory₀ tree₀ memory (first :: frames) .nil)
    (aligned : Aligned walk memory (first :: frames) .nil) (calm : Calm (first :: frames) .nil) :
    ∃ memory', insertFrom cmp dup fresh data (fuel + 1) walk = some memory' ∧
      Outcome cmp dup fresh data memory₀ tree₀ memory' := by
  obtain ⟨height, redBlack, accepts, -⟩ := standing.balanced
  obtain rfl : height = 0 := redBlack
  have linked := standing.rebuilt.linked
  have new' : fresh ∉ plug (first :: (frames ++ [headFrame])) .nil :=
    fun inside => new (standing.rebuilt.mem_iff.mp inside)
  obtain ⟨memory₁, visited, linked₁, old, added, outside⟩ := visit_new dup data
    (aligned.memory ▸ linked) standing.nodup aligned.q aligned.p (aligned.dir _ _ rfl) new' fresh_ne
  rw [aligned.memory] at old outside
  have nodup₁ := nodup_new standing.nodup new'
  have single : (Tree.node fresh 1 .nil .nil).RedBlack 0 :=
    .inl ⟨rfl, not_isRed_nil, not_isRed_nil, rfl, rfl⟩
  -- whatever the repair makes of the tree with the new node
  have finish : ∀ {memory₂ frames' tree'}, repair walk fresh memory₁ = some memory₂ →
      Rebuilt (plug (first :: (frames ++ [headFrame])) (.node fresh 1 .nil .nil))
        (plug (frames' ++ [headFrame]) tree') memory₁ memory₂ →
      (∃ height, tree'.RedBlack height ∧ Accepts frames' height ∧
        ¬(tree'.IsRed ∧ EndsRed frames')) →
      ∃ memory', insertFrom cmp dup fresh data (fuel + 1) walk = some memory' ∧
        Outcome cmp dup fresh data memory₀ tree₀ memory' := by
    intro memory₂ frames' tree' repaired rebuilt balanced
    have data₂ : dataAt memory₂ fresh = some (dup data) := (rebuilt.data fresh).trans added
    obtain ⟨node, here, node_data⟩ := Option.map_eq_some_iff.mp data₂
    obtain ⟨height, balanced'⟩ := redBlack_plug.mpr balanced
    have labels₀ := standing.labels_eq
    have labels₂ := rebuilt.labels
    rw [plug_append, ← List.cons_append, plug_append] at labels₂
    refine ⟨memory₂, ?_, .added (plug frames' tree') (first :: frames) height
      (by rw [← plug_append]; exact rebuilt.linked) balanced' ?_ ?_ standing.search
      (fun a different => (rebuilt.data a).trans ((old a different).trans
        (standing.rebuilt.data a))) data₂ fun a outside' different => ?_⟩
    · rw [insertFrom_pass visited repaired here, node_data, if_pos dup_same]
    · rw [← labels₀, labels_plug]
      simp [labels]
    · simpa [labels_plug, labels, before, after, headFrame] using labels₂
    · have outside₁ : a ∉ plug (first :: (frames ++ [headFrame])) .nil :=
        fun inside => outside' (standing.rebuilt.mem_iff.mp inside)
      rw [rebuilt.outside a ?_, outside a outside₁ different]
      · exact standing.rebuilt.outside a outside'
      · rw [mem_plug] at outside₁ ⊢
        simpa [different] using outside₁
  by_cases red : EndsRed (first :: frames)
  · rcases calm.uncle red with quiet | ⟨first', second, rest, split, uncle⟩
    · exact absurd quiet id
    · obtain ⟨rfl, rfl⟩ := List.cons.inj split
      obtain ⟨memory₂, tree', repaired, rebuilt, redBlack', black, -⟩ :=
        repair_rebuilt aligned linked₁ nodup₁ single rfl accepts red uncle
      exact finish repaired rebuilt ⟨1, redBlack', (accepts_red accepts red).2.2.2,
        fun both => black both.1⟩
  · obtain ⟨here, path⟩ := linked_plug.mp linked₁
    refine @finish memory₁ (first :: frames) (.node fresh 1 .nil .nil)
      (repair_none here.isRed (aligned.p ▸ isRed_top path) fun both => ?_) (Rebuilt.refl linked₁) ⟨0, single, accepts, fun both => red both.2⟩
    exact red (of_decide_eq_true both.2)

/-- The children of a red node are quiet when the walk made them black. -/
theorem quiet_recolour {tree : Tree ℕ} {height : ℕ} (redBlack : tree.RedBlack height)
    (red : tree.IsRed) : Quiet (tree.recolour 0) := by
  cases tree with
  | nil => exact absurd red not_isRed_nil
  | node a colour left right =>
      rcases redBlack with ⟨-, black, -⟩ | ⟨black, -⟩
      · exact ⟨rfl, fun both => black both.1⟩
      · exact absurd (black.symm.trans red) (by decide)

/-- What is known of the node at which the walk stands. -/
theorem Standing.seen {side : Side} {a : ℕ} {red : Int} {child sibling : Tree ℕ} {node : RbNode α}
    (standing : Standing cmp data memory₀ tree₀ memory frames (join side a red child sibling))
    (here : memory a = some node) :
    dataAt memory₀ a = some node.data ∧ node.link side = ptr child := by
  obtain ⟨⟨-, node', here', -, child_eq, -⟩, -⟩ := linked_join.mp standing.linked.1
  obtain rfl : node = node' := Option.some.inj (here.symm.trans here')
  refine ⟨?_, child_eq⟩
  rw [← standing.rebuilt.data, dataAt, here]
  rfl

/-- The end of a pass with a single rotation. -/
theorem outer_completes {m fuel a q g : ℕ} {side : Side} {left right inner light : Tree ℕ}
    {found : α} {node : RbNode α} (rest : Completes cmp dup fresh data memory₀ tree₀ m fuel)
    (standing : Standing cmp data memory₀ tree₀ memory frames
      (join side a 0 (.node q 1 left right) (join side g 1 inner light)))
    (data_eq : dataAt memory₀ a = some found) (differ : cmp found data ≠ 0)
    (side_eq : side = dirOf (cmp found data)) (quiet : Quiet left ∧ Quiet right)
    (size : left.labels.length ≤ m + 1 ∧ right.labels.length ≤ m + 1)
    (here : memory q = some node) (p_eq : walk.p = a) :
    ∃ memory', (if cmp node.data data = 0 then some memory
      else insertFrom cmp dup fresh data (fuel + 1)
        (advance walk memory q node (dirOf (cmp node.data data)))) = some memory' ∧
      Outcome cmp dup fresh data memory₀ tree₀ memory' := by
  have below := standing.down data_eq differ side_eq
  obtain ⟨child, sibling, shape⟩ := exists_side (dirOf (cmp node.data data)) q 1 left right
  rw [shape] at below
  obtain ⟨data_eq', link_eq⟩ := below.seen here
  by_cases same : cmp node.data data = 0
  · rw [if_pos same]
    exact ⟨memory, rfl, below.found (mem_join.mpr (.inl rfl)) data_eq' same⟩
  · rw [if_neg same]
    obtain ⟨-, -, ⟨rfl, -⟩ | ⟨rfl, -⟩⟩ := node_eq_join shape
    · exact quiet_completes rest (below.down data_eq' same rfl) quiet.1 size.1 link_eq rfl rfl
        p_eq rfl
    · exact quiet_completes rest (below.down data_eq' same rfl) quiet.2 size.2 link_eq rfl rfl
        p_eq rfl

/-- The end of a pass with a double rotation. -/
theorem inner_completes {m fuel p q g : ℕ} {side : Side} {outer near far light : Tree ℕ}
    {found found' : α} {node : RbNode α} (rest : Completes cmp dup fresh data memory₀ tree₀ m fuel)
    (standing : Standing cmp data memory₀ tree₀ memory frames
      (join side q 0 (join side p 1 outer near) (join side g 1 far light)))
    (data_eq : dataAt memory₀ p = some found) (differ : cmp found data ≠ 0)
    (side_eq : side.other = dirOf (cmp found data)) (data_eq' : dataAt memory₀ g = some found')
    (differ' : cmp found' data ≠ 0) (side_eq' : side = dirOf (cmp found' data))
    (quiet : Quiet near ∧ Quiet far)
    (size : near.labels.length ≤ m + 1 ∧ far.labels.length ≤ m + 1)
    (here : memory q = some node) :
    ∃ memory', (if cmp node.data data = 0 then some memory
      else insertFrom cmp dup fresh data (fuel + 2)
        (advance walk memory q node (dirOf (cmp node.data data)))) = some memory' ∧
      Outcome cmp dup fresh data memory₀ tree₀ memory' := by
  have data_eq'' := (standing.seen here).1
  by_cases same : cmp node.data data = 0
  · rw [if_pos same]
    exact ⟨memory, rfl, standing.found (mem_join.mpr (.inl rfl)) data_eq'' same⟩
  · rw [if_neg same]
    by_cases toward : dirOf (cmp node.data data) = side
    · have below := standing.down data_eq'' same toward.symm
      have link_eq := (standing.seen here).2
      rw [← join_other side p] at below
      rw [ptr_join] at link_eq
      exact turned_completes rest below data_eq differ side_eq quiet.1 size.1
        (toward ▸ link_eq) rfl rfl
    · have away : dirOf (cmp node.data data) = side.other := eq_other_of_ne (Ne.symm toward)
      rw [← join_other side q] at standing
      have below := standing.down data_eq'' same away.symm
      have link_eq := (standing.seen here).2
      rw [ptr_join] at link_eq
      exact turned_completes rest below data_eq' differ' side_eq' quiet.2 size.2
        (away ▸ link_eq) rfl rfl

/-- The pass that splits a node. -/
theorem split_completes {n fuel q : ℕ} {red : Int} {left right : Tree ℕ}
    (rest : ∀ m, m < n → ∀ fuel, 2 * m + 1 ≤ fuel →
      Completes cmp dup fresh data memory₀ tree₀ m fuel)
    (enough : 2 * n ≤ fuel) (size : (Tree.node q red left right).labels.length ≤ n)
    (standing : Standing cmp data memory₀ tree₀ memory frames (.node q red left right))
    (aligned : Aligned walk memory frames (.node q red left right))
    (calm : Calm frames (.node q red left right)) (left_red : left.IsRed)
    (right_red : right.IsRed) :
    ∃ memory', insertFrom cmp dup fresh data (fuel + 1) walk = some memory' ∧
      Outcome cmp dup fresh data memory₀ tree₀ memory' := by
  obtain ⟨height, redBlack, accepts, -⟩ := standing.balanced
  obtain ⟨height, rfl, lower, lower'⟩ : ∃ lower, height = lower + 1 ∧ left.RedBlack lower ∧
      right.RedBlack lower := by
    rcases redBlack with ⟨-, black, -⟩ | ⟨-, lower⟩
    · exact absurd left_red black
    · exact lower
  obtain ⟨found, -, -, data_eq, -⟩ := standing.exists_seen
  obtain ⟨memory₁, visited, rebuilt⟩ := visit_split dup fresh data
    (aligned.memory ▸ standing.rebuilt.linked) standing.nodup aligned.q left_red right_red
  rw [aligned.memory] at rebuilt
  obtain ⟨child₁, black₁⟩ := lower.recolour_red left_red
  obtain ⟨child₂, black₂⟩ := lower'.recolour_red right_red
  have quiet₁ := quiet_recolour lower left_red
  have quiet₂ := quiet_recolour lower' right_red
  have redBlack₁ : (Tree.node q 1 (left.recolour 0) (right.recolour 0)).RedBlack (height + 1) :=
    .inl ⟨rfl, black₁, black₂, child₁, child₂⟩
  have rebuilt₁ := standing.rebuilt.trans rebuilt
  have nodup₁ := rebuilt.nodup standing.nodup
  have sizes : (left.recolour 0).labels.length + (right.recolour 0).labels.length + 1 ≤ n := by
    simpa [labels, Nat.add_assoc] using size
  have parts : ∀ {side : Side} {a colour child sibling},
      Tree.node q 1 (left.recolour 0) (right.recolour 0) = join side a colour child sibling →
      a = q ∧ colour = 1 ∧ Quiet child ∧ Quiet sibling ∧ child.labels.length + 2 ≤ n ∧
        sibling.labels.length + 2 ≤ n := by
    intro side a colour child sibling same
    have full₁ : 0 < (left.recolour 0).labels.length := by
      cases left with
      | nil => exact absurd left_red not_isRed_nil
      | node => simp [labels]
    have full₂ : 0 < (right.recolour 0).labels.length := by
      cases right with
      | nil => exact absurd right_red not_isRed_nil
      | node => simp [labels]
    obtain ⟨rfl, rfl, ⟨rfl, rfl⟩ | ⟨rfl, rfl⟩⟩ := node_eq_join same
    · exact ⟨rfl, rfl, quiet₁, quiet₂, by omega, by omega⟩
    · exact ⟨rfl, rfl, quiet₂, quiet₁, by omega, by omega⟩
  by_cases ends : EndsRed frames
  · obtain ⟨first, second, above, rfl, uncle⟩ : ∃ first second above,
        frames = first :: second :: above ∧ ¬second.sibling.IsRed := by
      rcases calm.uncle ends with quiet | uncle
      · exact absurd ⟨left_red, right_red⟩ quiet.2
      · exact uncle
    obtain ⟨memory₂, tree', repaired, rebuilt₂, redBlack₂, black, shape⟩ :=
      repair_rebuilt aligned rebuilt.linked nodup₁ redBlack₁ rfl accepts ends uncle
    rw [ptr_node] at repaired
    obtain ⟨fuel, rfl⟩ : ∃ more, fuel = more + 2 := ⟨fuel - 2, by omega⟩
    have standing₂ : Standing cmp data memory₀ tree₀ memory₂ above tree' :=
      ⟨rebuilt₁.trans rebuilt₂, rebuilt₂.nodup nodup₁, ⟨_, redBlack₂,
        (accepts_red accepts ends).2.2.2, fun both => black both.1⟩,
        fun frame among => standing.search frame (.tail _ (.tail _ among))⟩
    obtain ⟨found₁, data₁, differ₁, side₁⟩ := standing.search first (.head _)
    obtain ⟨found₂, data₂, differ₂, side₂⟩ := standing.search second (.tail _ (.head _))
    have member : q ∈ plug (above ++ [headFrame]) tree' :=
      rebuilt₂.mem_iff.mpr (mem_plug.mpr (.inl (mem_node.mpr (.inl rfl))))
    obtain ⟨node, here⟩ := rebuilt₂.linked.allocated member
    rw [insertFrom_pass visited repaired here]
    rcases shape with ⟨outer, rfl⟩ | ⟨inner, a, colour, near, far, shape, rfl⟩
    · obtain ⟨-, -, -, -, size₁, size₂⟩ := parts (rfl : _ = join .left q 1 _ _)
      exact outer_completes (rest (n - 2) (by omega) (fuel + 1) (by omega)) standing₂ data₁ differ₁
        (outer ▸ side₁) ⟨quiet₁, quiet₂⟩ ⟨by omega, by omega⟩ here aligned.p
    · obtain ⟨rfl, rfl, near_quiet, far_quiet, size₁, size₂⟩ := parts shape
      exact inner_completes (rest (n - 2) (by omega) fuel (by omega)) standing₂ data₁ differ₁
        (inner ▸ side₁) data₂ differ₂ side₂ ⟨near_quiet, far_quiet⟩ ⟨by omega, by omega⟩ here
  · obtain ⟨linked₁, path₁⟩ := linked_plug.mp rebuilt.linked
    have repaired : repair walk q memory₁ = some memory₁ :=
      repair_none linked₁.isRed (aligned.p ▸ isRed_top path₁)
        fun both => ends (of_decide_eq_true both.2)
    have standing₁ : Standing cmp data memory₀ tree₀ memory₁ frames
        (.node q 1 (left.recolour 0) (right.recolour 0)) :=
      ⟨rebuilt₁, nodup₁, ⟨_, redBlack₁, accepts, fun both => ends both.2⟩, standing.search⟩
    obtain ⟨found, child, sibling, data_eq, shape⟩ := standing₁.exists_seen
    obtain ⟨node, here⟩ := linked₁.allocated (mem_node.mpr (.inl rfl))
    obtain ⟨-, -, child_quiet, -, child_size, -⟩ := parts shape
    rw [shape] at standing₁
    obtain ⟨node_data, link_eq⟩ := standing₁.seen here
    obtain rfl : node.data = found := Option.some.inj (node_data.symm.trans data_eq)
    rw [insertFrom_pass visited repaired here]
    by_cases same : cmp node.data data = 0
    · rw [if_pos same]
      exact ⟨memory₁, rfl, standing₁.found (mem_join.mpr (.inl rfl)) data_eq same⟩
    · rw [if_neg same]
      refine rest (n - 1) (by omega) fuel (by omega) (by omega)
        (standing₁.down data_eq same rfl) (aligned.advance path₁ link_eq)
        ⟨fun empty => absurd empty (List.cons_ne_nil _ _), ?_, fun _ => .inl child_quiet⟩
      · intro red
        cases child with
        | nil => exact absurd child_quiet id
        | node => exact absurd (child_quiet.1.symm.trans red) (by decide)

/-- The pass that goes down from a node which it does not change. -/
theorem down_completes {n fuel : ℕ} {side : Side} {a : ℕ} {red : Int} {child sibling : Tree ℕ}
    {found : α} (rest : Completes cmp dup fresh data memory₀ tree₀ n fuel)
    (standing : Standing cmp data memory₀ tree₀ memory frames (join side a red child sibling))
    (data_eq : dataAt memory₀ a = some found) (side_eq : side = dirOf (cmp found data))
    (aligned : Aligned walk memory frames (join side a red child sibling))
    (calm : Calm frames (join side a red child sibling)) (black : ¬(child.IsRed ∧ sibling.IsRed))
    (size : child.labels.length ≤ n) :
    ∃ memory', insertFrom cmp dup fresh data (fuel + 1) walk = some memory' ∧
      Outcome cmp dup fresh data memory₀ tree₀ memory' := by
  obtain ⟨node, link_eq, pass⟩ := stay_pass fuel standing data_eq side_eq black
    (aligned.q.trans (ptr_join ..)) aligned.memory aligned.p
  have path := standing.linked.2
  rw [ptr_join] at path
  rw [pass]
  by_cases same : cmp found data = 0
  · rw [if_pos same]
    exact ⟨memory, rfl, standing.found (mem_join.mpr (.inl rfl)) data_eq same⟩
  · rw [if_neg same]
    refine rest size (standing.down data_eq same side_eq) (aligned.advance path link_eq)
      ⟨fun empty => absurd empty (List.cons_ne_nil _ _), ?_, fun ends => .inr ?_⟩
    · rintro child_red frame rest ⟨⟩ sibling_red
      exact black ⟨child_red, sibling_red⟩
    · have red : (join side a red child sibling).IsRed := isRed_join.mpr ends
      cases frames with
      | nil => exact absurd red (calm.root rfl).2
      | cons frame frames => exact ⟨_, frame, frames, rfl, calm.child red _ _ rfl⟩

/-- The loop comes to an end, and the tree is red-black with the new data in its place. -/
theorem insertFrom_completes (fresh_ne : fresh ≠ 0) (new : fresh ∉ plug [headFrame] tree₀)
    (dup_same : cmp (dup data) data = 0) (n : ℕ) :
    ∀ fuel, 2 * n + 1 ≤ fuel → Completes cmp dup fresh data memory₀ tree₀ n fuel := by
  induction n using Nat.strong_induction_on with
  | _ n induction =>
      intro fuel enough frames sub memory walk size standing aligned calm
      obtain ⟨fuel, rfl⟩ : ∃ less, fuel = less + 1 := ⟨fuel - 1, by omega⟩
      cases sub with
      | nil =>
          cases frames with
          | nil => exact absurd rfl (calm.root rfl).1
          | cons first frames =>
              exact new_completes fuel fresh_ne new dup_same standing aligned calm
      | node q red left right =>
          by_cases both : left.IsRed ∧ right.IsRed
          · exact split_completes induction (by omega) size standing aligned calm both.1 both.2
          · obtain ⟨found, child, sibling, data_eq, shape⟩ := standing.exists_seen
            have black : ¬(child.IsRed ∧ sibling.IsRed) := by
              rintro ⟨child_red, sibling_red⟩
              obtain ⟨-, -, ⟨rfl, rfl⟩ | ⟨rfl, rfl⟩⟩ := node_eq_join shape
              · exact both ⟨child_red, sibling_red⟩
              · exact both ⟨sibling_red, child_red⟩
            rw [shape] at standing aligned calm size
            rw [length_join] at size
            exact down_completes (induction (n - 1) (by omega) fuel (by omega)) standing data_eq rfl
              aligned calm black (by omega)

end CommonLib.JswRbtree
