import CommonLib.Library.RedBlack
import Mathlib.Logic.Function.Basic

/-!
# The red-black trees of jsw_rbtree.c

An insertion and a removal walk down the tree once.  The insertion splits nodes with two red
children on its way and repairs a red child of a red node with pointers to the last three nodes,
of which a rotation leaves some behind; the removal pushes a red node down in front of it.
-/

namespace CommonLib

/-- `jsw_rbnode`; `link[0]` is the left one, and 0 stands for NULL. -/
structure RbNode (α : Type) where
  red : Int
  data : α
  link : Side → ℕ

/-- The nodes in memory; what is not allocated can be neither read nor written. -/
abbrev RbMemory (α : Type) := ℕ → Option (RbNode α)

/-- `jsw_rbtree`, with the memory and what was given to `rel`. -/
structure JswRbtree (α : Type) where
  root : ℕ
  size : ℕ
  memory : RbMemory α
  /-- The next address that `balloc` gives out. -/
  fresh : ℕ
  released : List α

namespace JswRbtree

variable {α : Type}

/-- The address of the local variable `head`. -/
def head : ℕ := 1

/-- `jsw_rbnew`. -/
def new : JswRbtree α where
  root := 0
  size := 0
  memory := fun _ => none
  fresh := 2
  released := []

/-! ## Nodes -/

def isRed (memory : RbMemory α) (root : ℕ) : Option Bool :=
  if root = 0 then some false else (memory root).map fun node => node.red == 1

def setLink (memory : RbMemory α) (node : ℕ) (dir : Side) (target : ℕ) : Option (RbMemory α) :=
  (memory node).map fun old =>
    Function.update memory node (some { old with link := Function.update old.link dir target })

def setRed (memory : RbMemory α) (node : ℕ) (red : Int) : Option (RbMemory α) :=
  (memory node).map fun old => Function.update memory node (some { old with red := red })

def setData (memory : RbMemory α) (node : ℕ) (data : α) : Option (RbMemory α) :=
  (memory node).map fun old => Function.update memory node (some { old with data := data })

/-- `jsw_single`. -/
def single (memory : RbMemory α) (root : ℕ) (dir : Side) : Option (ℕ × RbMemory α) := do
  let save := (← memory root).link dir.other
  let memory ← setLink memory root dir.other ((← memory save).link dir)
  let memory ← setLink memory save dir root
  let memory ← setRed memory root 1
  let memory ← setRed memory save 0
  return (save, memory)

/-- `jsw_double`. -/
def double (memory : RbMemory α) (root : ℕ) (dir : Side) : Option (ℕ × RbMemory α) := do
  let (child, memory) ← single memory ((← memory root).link dir.other) dir.other
  let memory ← setLink memory root dir.other child
  single memory root dir

/-- `new_node`. -/
def newNode (dup : α → α) (data : α) : RbNode α where
  red := 1
  data := dup data
  link := fun _ => 0

/-- The index `value < 0` of a link. -/
def dirOf (value : Int) : Side := if value < 0 then .right else .left

/-- The index `node->link[1] == child` of a link. -/
def sideOf (node : RbNode α) (child : ℕ) : Side :=
  if node.link .right = child then .right else .left

variable (cmp : α → α → Int)

/-- The loop of `jsw_rbfind`. -/
def findFrom (memory : RbMemory α) (data : α) : ℕ → ℕ → Option (Option α)
  | 0, _ => none
  | fuel + 1, it =>
      if it = 0 then some none
      else do
        let node ← memory it
        if cmp node.data data = 0 then return some node.data
        else findFrom memory data fuel (node.link (dirOf (cmp node.data data)))

/-- `jsw_rbfind`; the fuel exceeds the number of nodes. -/
def find (tree : JswRbtree α) (data : α) : Option (Option α) :=
  findFrom cmp tree.memory data (tree.fresh + 1) tree.root

/-! ## Insertion -/

/-- The variables of the loop of `jsw_rbinsert`. -/
structure Descent (α : Type) where
  t : ℕ
  g : ℕ
  p : ℕ
  q : ℕ
  dir : Side
  last : Side
  memory : RbMemory α

/-- The node that the loop comes to: a new one, or one whose red children it splits. -/
def visit (dup : α → α) (fresh : ℕ) (data : α) (walk : Descent α) : Option (ℕ × RbMemory α) :=
  if walk.q = 0 then do
    let memory := Function.update walk.memory fresh (some (newNode dup data))
    return (fresh, ← setLink memory walk.p walk.dir fresh)
  else do
    let node ← walk.memory walk.q
    if (← isRed walk.memory (node.link .left)) && (← isRed walk.memory (node.link .right)) then
      let memory ← setRed walk.memory walk.q 1
      let memory ← setRed memory (node.link .left) 0
      return (walk.q, ← setRed memory (node.link .right) 0)
    else return (walk.q, walk.memory)

/-- The repair of a red child of a red node. -/
def repair (walk : Descent α) (q : ℕ) (memory : RbMemory α) : Option (RbMemory α) := do
  if (← isRed memory q) && (← isRed memory walk.p) then
    let dir2 := sideOf (← memory walk.t) walk.g
    let (top, memory) ←
      if q = (← memory walk.p).link walk.last then single memory walk.g walk.last.other
      else double memory walk.g walk.last.other
    setLink memory walk.t dir2 top
  else return memory

/-- The loop of `jsw_rbinsert`. -/
def insertFrom (dup : α → α) (fresh : ℕ) (data : α) : ℕ → Descent α → Option (RbMemory α)
  | 0, _ => none
  | fuel + 1, walk => do
      let (q, memory) ← visit dup fresh data walk
      let memory ← repair walk q memory
      let node ← memory q
      if cmp node.data data = 0 then return memory
      else
        let dir := dirOf (cmp node.data data)
        insertFrom dup fresh data fuel
          { t := if walk.g ≠ 0 then walk.g else walk.t, g := walk.p, p := q, q := node.link dir,
            dir := dir, last := walk.dir, memory := memory }

/-- The local variable `head`; its data is not read. -/
def headNode (data : α) (root : ℕ) : RbNode α where
  red := 0
  data := data
  link := fun side => match side with
    | .left => 0
    | .right => root

/-- `jsw_rbinsert`; every pass of the loop goes down to a node, or to one again after a double
rotation. -/
def insert (dup : α → α) (tree : JswRbtree α) (data : α) : Option (JswRbtree α) := do
  let (root, memory) ←
    if tree.root = 0 then
      pure (tree.fresh, Function.update tree.memory tree.fresh (some (newNode dup data)))
    else
      let memory := Function.update tree.memory head (some (headNode data tree.root))
      let memory ← insertFrom cmp dup tree.fresh data (2 * tree.fresh + 2)
        { t := head, g := 0, p := 0, q := tree.root, dir := .left, last := .left, memory := memory }
      pure ((← memory head).link .right, Function.update memory head none)
  return { tree with
    root := root
    size := (tree.size + 1) % 2 ^ 64
    memory := ← setRed memory root 0
    fresh := tree.fresh + 1 }

/-! ## Removal -/

/-- The variables of the loop of `jsw_rberase`. -/
structure Pursuit (α : Type) where
  q : ℕ
  p : ℕ
  g : ℕ
  f : ℕ
  dir : Side
  memory : RbMemory α

/-- The colours after a rotation below `g`. -/
def settle (memory : RbMemory α) (g : ℕ) (dir2 : Side) (q : ℕ) : Option (RbMemory α) := do
  let top := (← memory g).link dir2
  let memory ← setRed memory top 1
  let memory ← setRed memory q 1
  let memory ← setRed memory ((← memory top).link .left) 0
  setRed memory ((← memory top).link .right) 0

/-- A black node with two black children takes red from its parent, which has another child. -/
def borrow (walk : Pursuit α) (last : Side) (s : ℕ) : Option (RbMemory α) := do
  let sibling ← walk.memory s
  if !(← isRed walk.memory (sibling.link last.other)) &&
      !(← isRed walk.memory (sibling.link last)) then
    let memory ← setRed walk.memory walk.p 0
    let memory ← setRed memory s 1
    setRed memory walk.q 1
  else
    let dir2 := sideOf (← walk.memory walk.g) walk.p
    let memory ←
      if ← isRed walk.memory (sibling.link last) then do
        let (top, memory) ← double walk.memory walk.p last
        setLink memory walk.g dir2 top
      else if ← isRed walk.memory (sibling.link last.other) then do
        let (top, memory) ← single walk.memory walk.p last
        setLink memory walk.g dir2 top
      else pure walk.memory
    settle memory walk.g dir2 walk.q

/-- The node at which the walk stands is made red, unless it or the next one is so. -/
def pushRed (walk : Pursuit α) (last : Side) : Option (Pursuit α) := do
  let node ← walk.memory walk.q
  if !(← isRed walk.memory walk.q) && !(← isRed walk.memory (node.link walk.dir)) then
    if ← isRed walk.memory (node.link walk.dir.other) then
      let (top, memory) ← single walk.memory walk.q walk.dir
      return { walk with p := top, memory := ← setLink memory walk.p last top }
    else
      let s := (← walk.memory walk.p).link last.other
      if s ≠ 0 then return { walk with memory := ← borrow walk last s }
      else return walk
  else return walk

/-- The loop of `jsw_rberase`. -/
def eraseFrom (data : α) : ℕ → Pursuit α → Option (Pursuit α)
  | 0, _ => none
  | fuel + 1, walk => do
      let next := (← walk.memory walk.q).link walk.dir
      if next = 0 then return walk
      else
        let node ← walk.memory next
        let walk' ← pushRed { walk with
          q := next
          p := walk.q
          g := walk.p
          f := if cmp node.data data = 0 then next else walk.f
          dir := dirOf (cmp node.data data) } walk.dir
        eraseFrom data fuel walk'

/-- The node at which the walk ended takes the place of the one that was found. -/
def takeOut (walk : Pursuit α) : Option (α × RbMemory α) := do
  let found := (← walk.memory walk.f).data
  let node ← walk.memory walk.q
  let memory ← setData walk.memory walk.f node.data
  let child := node.link (if node.link .left = 0 then .right else .left)
  let memory ← setLink memory walk.p (sideOf (← memory walk.p) walk.q) child
  return (found, Function.update memory walk.q none)

/-- The end of the removal, if something was found. -/
def takeFound (tree : JswRbtree α) (walk : Pursuit α) : Option (List α × RbMemory α) :=
  if walk.f ≠ 0 then do
    let (found, memory) ← takeOut walk
    return (tree.released ++ [found], memory)
  else some (tree.released, walk.memory)

def blackenRoot (memory : RbMemory α) (root : ℕ) : Option (RbMemory α) :=
  if root ≠ 0 then setRed memory root 0 else some memory

/-- `jsw_rberase`. -/
def erase (tree : JswRbtree α) (data : α) : Option (JswRbtree α) :=
  if tree.root = 0 then some tree
  else do
    let memory := Function.update tree.memory head (some (headNode data tree.root))
    let walk ← eraseFrom cmp data (tree.fresh + 1)
      { q := head, p := 0, g := 0, f := 0, dir := .right, memory := memory }
    let (released, memory) ← takeFound tree walk
    let root := (← memory head).link .right
    let memory ← blackenRoot (Function.update memory head none) root
    return { tree with
      root := root
      size := (tree.size + 2 ^ 64 - 1) % 2 ^ 64
      memory := memory
      released := released }

end JswRbtree

end CommonLib
