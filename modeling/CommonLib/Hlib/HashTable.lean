import Mathlib.Algebra.Group.Nat.Defs
import CommonLib.Hlib.Stack
import CommonLib.Library.BalancedTree
import Mathlib.Order.Defs.LinearOrder

/-!
# The hash table of `hhmii.cpp`

All elements of the table stand in one array `m_eDict`, and a pointer to an element is its slot.
The keys of one slot form a balanced tree, whose root is the element at that slot and whose other
elements lie anywhere in the array.  `hhmii.cpp` and `hhmsi.cpp` differ in the key and its hash code
only, so that both are parameters here.  A step which dereferences `NULL`, runs past the path array
or never returns has no result.
-/

namespace CommonLib

/-- An element of the table; `left`, `right` and `parent` are slots. -/
structure THElement (κ β : Type) where
  index : Nat
  isUsing : Bool
  bf : Int
  parent : Option Nat
  left : Option Nat
  right : Option Nat
  key : κ
  value : β

namespace THElement

variable {κ β : Type}

def child (element : THElement κ β) : Side → Option Nat
  | .left => element.left
  | .right => element.right

def setChild (element : THElement κ β) (side : Side) (pointer : Option Nat) : THElement κ β :=
  match side with
  | .left => { element with left := pointer }
  | .right => { element with right := pointer }

def setParent (element : THElement κ β) (parent : Option Nat) : THElement κ β :=
  { element with parent }

def setBf (element : THElement κ β) (bf : Int) : THElement κ β := { element with bf }

/-- The copy of `H_ELEMENT_COPY_SIZE` bytes from `&source->Using`, which leaves `Index` alone. -/
def copyFrom (element source : THElement κ β) : THElement κ β :=
  { source with index := element.index }

end THElement

inductive THHashAddResult
  | harOK
  | harOverflow
  | harDupKey
  deriving DecidableEq

structure THHashFindResult where
  found : Bool
  occupy : Bool
  direct : Bool

namespace HashTable

variable {κ β : Type}

/-- The elements behind `m_eDict`. -/
abbrev Dict (κ β : Type) := Nat → THElement κ β

/-! ## Rotations -/

/-- Write to the element at `node`. -/
def modify (dict : Dict κ β) (node : Nat) (write : THElement κ β → THElement κ β) : Dict κ β :=
  Function.update dict node (write (dict node))

/-- `if (child) child->parent = node`. -/
def adopt (dict : Dict κ β) (child : Option Nat) (node : Nat) : Dict κ β :=
  match child with
  | none => dict
  | some child => modify dict child fun element => element.setParent (some node)

def setBf (dict : Dict κ β) (node : Nat) (bf : Int) : Dict κ β :=
  modify dict node fun element => element.setBf bf

/-- The common text of `LL` and `RR`, for the side of the higher child. -/
def rotateOnce (side : Side) (dict : Dict κ β) (root : Nat) : Option (Nat × Dict κ β) := do
  let rootNext ← (dict root).child side
  let inner := (dict rootNext).child side.other
  let dict := modify dict root fun element => element.setChild side inner
  let dict := modify dict rootNext fun element => element.setChild side.other (some root)
  -- add for parent
  let parent := (dict root).parent
  let dict := modify dict rootNext fun element => element.setParent parent
  let dict := modify dict root fun element => element.setParent (some rootNext)
  let dict := adopt dict ((dict root).child side) root
  -- add end
  if (dict rootNext).bf = side.sign then
    some (rootNext, setBf (setBf dict root 0) rootNext 0)
  else some (rootNext, setBf (setBf dict root side.sign) rootNext (-side.sign))

/-- The common text of `LR` and `RL`. -/
def rotateTwice (side : Side) (dict : Dict κ β) (root : Nat) : Option (Nat × Dict κ β) := do
  let rootNext ← (dict root).child side
  let newRoot ← (dict rootNext).child side.other
  let far := (dict newRoot).child side.other
  let dict := modify dict root fun element => element.setChild side far
  let near := (dict newRoot).child side
  let dict := modify dict rootNext fun element => element.setChild side.other near
  let dict := modify dict newRoot fun element => element.setChild side (some rootNext)
  let dict := modify dict newRoot fun element => element.setChild side.other (some root)
  -- add for parent
  let parent := (dict root).parent
  let dict := modify dict newRoot fun element => element.setParent parent
  let dict := modify dict root fun element => element.setParent (some newRoot)
  let dict := modify dict rootNext fun element => element.setParent (some newRoot)
  let dict := adopt dict ((dict root).child side) root
  let dict := adopt dict ((dict rootNext).child side.other) rootNext
  -- add end
  let bf := (dict newRoot).bf
  let dict :=
    if bf = 0 then setBf (setBf dict root 0) rootNext 0
    else if bf = side.sign then setBf (setBf dict root (-side.sign)) rootNext 0
    else if bf = -side.sign then setBf (setBf dict root 0) rootNext side.sign
    else dict
  some (newRoot, setBf dict newRoot 0)

/-- `THHMII::LL`. -/
def LL (dict : Dict κ β) (root : Nat) : Option (Nat × Dict κ β) := rotateOnce .left dict root

/-- `THHMII::RR`. -/
def RR (dict : Dict κ β) (root : Nat) : Option (Nat × Dict κ β) := rotateOnce .right dict root

/-- `THHMII::LR`. -/
def LR (dict : Dict κ β) (root : Nat) : Option (Nat × Dict κ β) := rotateTwice .left dict root

/-- `THHMII::RL`. -/
def RL (dict : Dict κ β) (root : Nat) : Option (Nat × Dict κ β) := rotateTwice .right dict root

/-- The end of `ExchangeElement`: the children of `new` point back to it. -/
def adoptChildren (dict : Dict κ β) (new : Nat) : Dict κ β :=
  let dict := adopt dict (dict new).left new
  adopt dict (dict new).right new

/-- `THHMII::ExchangeElement`. -/
def exchangeElement (dict : Dict κ β) (root new : Nat) : Option (Dict κ β) :=
  -- 2. copy
  let rootElement := dict root
  let dict := modify dict root fun element => element.copyFrom (dict new)
  let dict := modify dict new fun element => element.copyFrom rootElement
  -- 3. fix
  let r := (dict root).left = some root
  let dict :=
    if r then
      adopt (modify dict root fun element => element.setChild .left (some new)) (some new) root
    else adopt dict (dict root).left root
  if (dict root).right = some root then
    some (adoptChildren
      (adopt (modify dict root fun element => element.setChild .right (some new)) (some new) root)
      new)
  else
    let dict := adopt dict (dict root).right root
    if r then some (adoptChildren dict new)
    else
      (dict new).parent.map fun parent =>
        adoptChildren
          (modify dict parent fun element =>
            element.setChild (if element.left = some root then .left else .right) (some new))
          new

variable [LinearOrder κ]

/-- `THHMII::RotateSubTree`; `above` is the path from the parent of `root` upwards. -/
def rotateSubTree (dict : Dict κ β) (root : Nat) (above : List Nat) (bf : Int) :
    Option (Bool × Dict κ β) := do
  let (tallChange, newRoot, dict) ←
    if bf = 2 then
      (dict root).left.bind fun left =>
        if (dict left).bf = -1 then (LR dict root).map (true, ·)
        else if (dict left).bf = 1 then (LL dict root).map (true, ·)
        else (LL dict root).map (false, ·)
    else if bf = -2 then
      (dict root).right.bind fun right =>
        if (dict right).bf = 1 then (RL dict root).map (true, ·)
        else if (dict right).bf = -1 then (RR dict root).map (true, ·)
        else (RR dict root).map (false, ·)
    else none
  match above with
  | [] => (exchangeElement dict root newRoot).map (tallChange, ·)
  | e :: _ =>
      let side := if (dict root).key < (dict e).key then .left else .right
      let dict := modify dict e fun element => element.setChild side (some newRoot)
      some (tallChange, modify dict newRoot fun element => element.setParent (some e))

/-! ## Paths -/

/-- The number of entries of a `THElementPath`. -/
def pathSize : Nat := 32

/-- How a search in a tree ends: at an element, or on the empty side of the last one.  The path is
listed from its end to the root. -/
inductive Search
  | found (node : Nat) (above : List Nat)
  | absent (side : Side) (path : List Nat)

/-- The search loops of `Add` and `Remove`, with the entries left in the path array. -/
def search (dict : Dict κ β) (key : κ) : Nat → Side → List Nat → Option Nat → Option Search
  | _, side, path, none => some (.absent side path)
  | 0, _, _, some _ => none
  | room + 1, _, path, some node =>
      if key = (dict node).key then some (.found node path)
      else if key < (dict node).key then
        search dict key room .left (node :: path) (dict node).left
      else search dict key room .right (node :: path) (dict node).right

/-- The loops of the `Find` functions; a walk of more steps than elements never ends. -/
def findNode (dict : Dict κ β) (key : κ) : Nat → Nat → Option (Option Nat)
  | 0, _ => none
  | steps + 1, node =>
      if key = (dict node).key then some (some node)
      else
        match if key < (dict node).key then (dict node).left else (dict node).right with
        | none => some none
        | some next => findNode dict key steps next

/-- The last element to the right of `tmp`, and the path above it. -/
def rightmost (dict : Dict κ β) : Nat → Nat → List Nat → Option (Nat × List Nat)
  | 0, _, _ => none
  | room + 1, tmp, above =>
      match (dict tmp).right with
      | none => some (tmp, above)
      | some next => rightmost dict room next (tmp :: above)

/-- The rotate loop of `Add`. -/
def rebalanceAdded (key : κ) : Dict κ β → List Nat → Option (Dict κ β)
  | dict, [] => some dict
  | dict, node :: above =>
      let change :=
        if key = (dict node).key then 0 else if key < (dict node).key then 1 else -1
      let dict := setBf dict node ((dict node).bf + change)
      let bf := (dict node).bf
      if bf = 0 then some dict
      else if bf = 2 ∨ bf = -2 then (rotateSubTree dict node above bf).map (·.2)
      else rebalanceAdded key dict above

/-- The rotate loop of `RemoveNode`. -/
def rebalanceRemoved (node : Nat) : Dict κ β → List Nat → Option (Dict κ β)
  | dict, [] => some dict
  | dict, t :: above =>
      let change := if (dict node).key ≤ (dict t).key then -1 else 1
      let dict := setBf dict t ((dict t).bf + change)
      let bf := (dict t).bf
      if bf = 0 then rebalanceRemoved node dict above
      else if bf = 1 ∨ bf = -1 then some dict
      else
        (rotateSubTree dict t above bf).bind fun (tallChange, dict) =>
          if tallChange then rebalanceRemoved node dict above else some dict

end HashTable

/-- The table of `hhmii.hpp`. -/
structure HashTable (κ β : Type) where
  mask : Nat
  dictSize : Nat
  dict : HashTable.Dict κ β
  count : UInt32
  freeBuffer : THSP Nat

namespace HashTable

variable {κ β : Type}

/-! ## Free elements -/

/-- `THHMII::AcquireBuffer`, whose loop leaves out the last element. -/
def acquireBuffer (table : HashTable κ β) : Option (Nat × THSP Nat) :=
  let push := fun (stack : THSP Nat) p =>
    if (table.dict p).isUsing then stack else (stack.push p).2
  ((List.range (table.dictSize - 1)).foldl push table.freeBuffer).popValue

/-- The loop of `Add` that obtains a free element. -/
def takeFree (table : HashTable κ β) : Option (Nat × THSP Nat) :=
  match table.freeBuffer.popWhile fun p => (table.dict p).isUsing with
  | (some p, freeBuffer) => some (p, freeBuffer)
  | (none, freeBuffer) => acquireBuffer { table with freeBuffer }

/-- The loop of `ReleaseBuffer` over the entries from `head` to `m_pPos`: an unused entry gives its
place to the last one.  The result are the kept entries and the number of the others. -/
def sweep (isUsing : Nat → Bool) : Nat → List Nat → List Nat × Nat
  | _, [] => ([], 0)
  | 0, entries => (entries, 0)
  | rest + 1, head :: entries =>
      if isUsing head then
        let (kept, removed) := sweep isUsing rest entries
        (head :: kept, removed)
      else
        let (kept, removed) := sweep isUsing rest
          (match entries.getLast? with
            | none => []
            | some last => last :: entries.dropLast)
        (kept, removed + 1)

/-- `THHMII::ReleaseBuffer`. -/
def releaseBuffer (table : HashTable κ β) (push : Nat) : HashTable κ β :=
  let (kept, removed) := sweep (fun p => (table.dict p).isUsing) table.freeBuffer.count
    table.freeBuffer.items.reverse
  { table with
    count := table.count - UInt32.ofNat removed
    freeBuffer := ((kept.foldl (fun stack p => (stack.push p).2) table.freeBuffer.clear).push push).2 }

/-- `THHMII::ReleaseNode`, which `RemoveNode` repeats in each of its cases. -/
def releaseNode (table : HashTable κ β) (node : Nat) : HashTable κ β :=
  let table :=
    { table with dict := modify table.dict node fun element => { element with isUsing := false } }
  let table :=
    if table.freeBuffer.isFull then table.releaseBuffer node
    else { table with freeBuffer := (table.freeBuffer.push node).2 }
  { table with count := table.count - 1 }

/-! ## Operations -/

/-- The loop of `Clear` over the first elements. -/
def resetRange (dict : Dict κ β) : Nat → Dict κ β
  | 0 => dict
  | i + 1 =>
      modify (resetRange dict i) i fun element => { element with index := i, isUsing := false }

/-- `THHMII::Clear`. -/
def clear (table : HashTable κ β) : HashTable κ β :=
  { table with
    count := 0
    dict := resetRange table.dict table.dictSize
    freeBuffer := table.freeBuffer.clear.pushRange table.dictSize }

/-- The loop of the constructor that doubles `m_nMask`; a mask which became zero stays zero. -/
def normalize (size : Nat) : Nat → Nat → Option Nat
  | 0, _ => none
  | rounds + 1, mask =>
      let mask := mask * 2 % 2 ^ 32
      if mask < size then normalize size rounds mask else some mask

/-- `sizeof(THElement)`. -/
def elementSize : Nat := 48

/-- `THHMII::THHMII`, on the contents `memory` of the allocated array; where the 32-bit product
under `malloc` wraps, `Clear` writes past the array. -/
def new (size : Nat) (memory : Dict κ β) : Option (HashTable κ β) := do
  let dictSize ← normalize size 32 1
  if dictSize * elementSize < 2 ^ 32 then
    some (clear
      { mask := dictSize - 1, dictSize, dict := memory, count := 0,
        freeBuffer := THSP.new (dictSize * 2) })
  else none

/-- The element that a search for a key with this hash code starts from. -/
def slot (table : HashTable κ β) (code : Nat) : Nat := code &&& table.mask

/-- The fields which `Add` writes to a free element. -/
def fill (key : κ) (value : β) (parent : Option Nat) (element : THElement κ β) : THElement κ β :=
  { element with isUsing := true, key, value, bf := 0, parent, left := none, right := none }

variable [LinearOrder κ] (hash : κ → Nat)

/-- `THHMII::Add`. -/
def add (table : HashTable κ β) (key : κ) (value : β) :
    Option (THHashAddResult × HashTable κ β) :=
  if table.count = UInt32.ofNat table.dictSize then some (.harOverflow, table)
  else
    let node := table.slot (hash key)
    if (table.dict node).isUsing = false then
      some (.harOK,
        { table with
          dict := modify table.dict node (fill key value none)
          count := table.count + 1 })
    else if (table.dict node).parent = none then
      (search table.dict key pathSize .right [] (some node)).bind fun
        | .found _ _ => some (.harDupKey, table)
        | .absent side path => do
            let (current, freeBuffer) ← table.takeFree
            let prev ← path.head?
            let dict := modify table.dict prev fun element => element.setChild side (some current)
            guard (path.length < pathSize)
            let dict := modify dict current (fill key value (some prev))
            let dict ← rebalanceAdded key dict path
            some (.harOK, { table with dict, freeBuffer, count := table.count + 1 })
    else do
      let (current, freeBuffer) ← table.takeFree
      let dict := modify table.dict current (fill key value none)
      let dict ← exchangeElement dict node current
      some (.harOK, { table with dict, freeBuffer, count := table.count + 1 })

/-- `THHMII::RemoveNode`; `above` is the path from the parent of `node` upwards. -/
def removeNode (table : HashTable κ β) (node : Nat) (above : List Nat) :
    Option (HashTable κ β) :=
  let dict := table.dict
  match (dict node).left, (dict node).right with
  | some left, some _ => do
      let (tmp, path) ← rightmost dict (pathSize - (above.length + 1)) left (node :: above)
      let dict := modify dict node fun element =>
        { element with key := (dict tmp).key, value := (dict tmp).value }
      let t ← path.head?
      let child := (dict tmp).left
      let dict := modify dict t fun element =>
        element.setChild (if t = node then .left else .right) child
      let table := { table with dict := adopt dict (dict tmp).left t }.releaseNode tmp
      let dict ← rebalanceRemoved node table.dict path
      some { table with dict }
  | left, right =>
      let tmp := left <|> right
      match above, tmp with
      | t :: _, tmp => do
          let dict := modify dict t fun element =>
            element.setChild (if element.left = some node then .left else .right) tmp
          let table := { table with dict := adopt dict tmp t }.releaseNode node
          let dict ← rebalanceRemoved node table.dict above
          some { table with dict }
      | [], some tmp =>
          let dict := modify dict node fun element => element.copyFrom (dict tmp)
          let dict := modify dict node fun element => element.setParent none
          some ({ table with dict }.releaseNode tmp)
      | [], none => some (table.releaseNode node)

/-- `THHMII::Remove`. -/
def remove (table : HashTable κ β) (key : κ) : Option (Bool × HashTable κ β) :=
  let node := table.slot (hash key)
  if (table.dict node).isUsing = false ∨ (table.dict node).parent ≠ none then some (false, table)
  else
    (search table.dict key pathSize .right [] (some node)).bind fun
      | .found node above => (table.removeNode node above).map (true, ·)
      | .absent _ _ => some (false, table)

/-- `THHMII::Find`. -/
def find (table : HashTable κ β) (key : κ) : Option (Option Nat) :=
  let node := table.slot (hash key)
  if (table.dict node).isUsing = false ∨ (table.dict node).parent ≠ none then some none
  else findNode table.dict key table.dictSize node

/-- `THHMII::FindEx`. -/
def findEx (table : HashTable κ β) (key : κ) (fr : THHashFindResult) :
    Option (THHashFindResult × Option Nat) :=
  let fr := { fr with occupy := false }
  -- 1. no data, pass
  if table.count = 0 then some ({ fr with found := false }, none)
  else
    -- 2. check direct
    let node := table.slot (hash key)
    if (table.dict node).isUsing = false then some ({ fr with found := false }, none)
    else if (table.dict node).parent ≠ none then
      some ({ fr with found := false, occupy := true }, none)
    -- 3. node is occupied
    else if key = (table.dict node).key then
      some ({ fr with found := true, direct := true }, some node)
    -- 4. searching in the chain
    else
      (findNode table.dict key table.dictSize node).map fun result =>
        ({ fr with found := result.isSome, direct := false }, result)

/-- `THHMII::Exists`. -/
def existsKey (table : HashTable κ β) (key : κ) : Option Bool :=
  (table.find hash key).map Option.isSome

/-- `THHMII::GetValue`. -/
def getValue [Zero β] (table : HashTable κ β) (key : κ) : Option β :=
  let node := table.slot (hash key)
  if (table.dict node).isUsing = false ∨ (table.dict node).parent ≠ none then some 0
  else
    (findNode table.dict key table.dictSize node).map fun
      | none => 0
      | some node => (table.dict node).value

inductive Op (κ β : Type)
  | add (key : κ) (value : β)
  | remove (key : κ)
  | clear

/-- One call on the table. -/
def step (table : HashTable κ β) : Op κ β → Option (HashTable κ β)
  | .add key value => (table.add hash key value).map (·.2)
  | .remove key => (table.remove hash key).map (·.2)
  | .clear => some table.clear

end HashTable
end CommonLib
