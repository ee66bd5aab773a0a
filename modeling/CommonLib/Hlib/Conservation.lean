import CommonLib.Hlib.Epoll
import CommonLib.Library.Partition

/-!
# Conservation of the transfer buffers

Every buffer of the pool is free, is the receive buffer of one context, or lies in the chain of one
used cache block.  The lists of these places form a partition of the pool, and each call of the
epoll server transfers the front of one list to the front of another.
-/

namespace CommonLib.THEpollServer

open Execution

/-- Where a transfer buffer can be. -/
inductive Place
  | free
  | recvBuf (context : Nat)
  | chain (block : Nat)
  deriving DecidableEq

/-- Buffer `buf` is found at a place. -/
def InPlace (server : THEpollServer) (buf : Nat) : Place → Prop
  | .free => ∃ cells, Chain server.bufferMgr.nexts server.bufferMgr.current cells none ∧ buf ∈ cells
  | .recvBuf c => c < server.contextMgr.size ∧ (server.contextMgr.contexts c).recvBuf = buf
  | .chain block => server.cache.Used block ∧
      ∃ cells, Chain server.bufferMgr.nexts (server.cache.buf block).data cells none ∧ buf ∈ cells

/-- The pool is partitioned into the lists of buffers at each place. -/
structure Conserved (server : THEpollServer) (lists : Place → List Nat) : Prop where
  partition : Partition server.bufferMgr.size lists
  free : server.bufferMgr.Free (lists .free)
  recvBuf : ∀ c, lists (.recvBuf c) =
    if c < server.contextMgr.size then [(server.contextMgr.contexts c).recvBuf] else []
  chain : ∀ {block}, server.cache.Used block →
    Chain server.bufferMgr.nexts (server.cache.buf block).data (lists (.chain block)) none
  nonempty : ∀ {block}, server.cache.Used block → lists (.chain block) ≠ []
  unused : ∀ {block}, ¬ server.cache.Used block → lists (.chain block) = []
  linked : server.cache.Linked

variable {server next : THEpollServer} {lists : Place → List Nat}

theorem Conserved.inPlace_iff (conserved : server.Conserved lists) {buf : Nat} {place : Place} :
    server.InPlace buf place ↔ buf ∈ lists place := by
  cases place with
  | free =>
      constructor
      · rintro ⟨cells, chain, member⟩
        rwa [← chain.unique conserved.free.chain]
      · exact fun member => ⟨_, conserved.free.chain, member⟩
  | recvBuf c =>
      rw [conserved.recvBuf]
      by_cases inside : c < server.contextMgr.size
      · simp [InPlace, inside, eq_comm]
      · simp [InPlace, inside]
  | chain block =>
      constructor
      · rintro ⟨used, cells, chain, member⟩
        rwa [← chain.unique (conserved.chain used)]
      · intro member
        have used : server.cache.Used block := by
          by_contra unused
          simp [conserved.unused unused] at member
        exact ⟨used, _, conserved.chain used, member⟩

/-- Every list stays valid while the links, the cache and the receive buffers stay. -/
theorem Conserved.congr (conserved : server.Conserved lists)
    (size_eq : next.bufferMgr.size = server.bufferMgr.size)
    (count_eq : next.bufferMgr.count = server.bufferMgr.count)
    (current_eq : next.bufferMgr.current = server.bufferMgr.current)
    (nexts_eq : ∀ buf, next.bufferMgr.nexts buf = server.bufferMgr.nexts buf)
    (cache_eq : next.cache = server.cache)
    (contexts_eq : next.contextMgr.size = server.contextMgr.size)
    (recvBuf_eq : ∀ c, (next.contextMgr.contexts c).recvBuf =
      (server.contextMgr.contexts c).recvBuf) : next.Conserved lists where
  partition := size_eq ▸ conserved.partition
  free :=
    { chain := by
        rw [current_eq]
        exact conserved.free.chain.congr fun buf _ => nexts_eq buf
      count := count_eq.trans conserved.free.count }
  recvBuf c := by rw [conserved.recvBuf, contexts_eq, recvBuf_eq]
  chain used := by
    rw [cache_eq] at used ⊢
    exact (conserved.chain used).congr fun buf _ => nexts_eq buf
  nonempty used := conserved.nonempty (cache_eq ▸ used)
  unused unused := conserved.unused (cache_eq ▸ unused)
  linked := cache_eq ▸ conserved.linked

/-! ## Calls on contexts -/

/-- Only connection data of the contexts changes. -/
structure SameBuffers (server next : THEpollServer) : Prop where
  bufferMgr : next.bufferMgr = server.bufferMgr
  cache : next.cache = server.cache
  size : next.contextMgr.size = server.contextMgr.size
  recvBuf : ∀ c, (next.contextMgr.contexts c).recvBuf = (server.contextMgr.contexts c).recvBuf

theorem SameBuffers.conserved (same : SameBuffers server next)
    (conserved : server.Conserved lists) : next.Conserved lists :=
  conserved.congr (by rw [same.bufferMgr]) (by rw [same.bufferMgr]) (by rw [same.bufferMgr])
    (fun _ => by rw [same.bufferMgr]) same.cache same.size same.recvBuf

theorem sameBuffers_connect (server : THEpollServer) (socket uid : Int) :
    SameBuffers server (server.connect socket uid).2 := by
  unfold connect THContextMgr.getContext
  cases server.contextMgr.current with
  | none => exact ⟨rfl, rfl, rfl, fun _ => rfl⟩
  | some ret =>
      refine ⟨rfl, rfl, rfl, fun c => ?_⟩
      by_cases same : c = ret
      · subst same
        simp [setSocket, THContextMgr.set]
      · simp [setSocket, THContextMgr.set, same]

theorem sameBuffers_killSocket (server : THEpollServer) (c : Nat) :
    SameBuffers server (server.killSocket c) := by
  unfold killSocket
  dsimp only
  split
  · exact ⟨rfl, rfl, rfl, fun _ => rfl⟩
  · refine ⟨rfl, rfl, rfl, fun other => ?_⟩
    by_cases same : other = c
    · subst same
      simp [THContextMgr.putContext, THContextMgr.set]
    · simp [THContextMgr.putContext, THContextMgr.set, same]

theorem SameBuffers.trans {last : THEpollServer} (first : SameBuffers server next)
    (second : SameBuffers next last) : SameBuffers server last where
  bufferMgr := second.bufferMgr.trans first.bufferMgr
  cache := second.cache.trans first.cache
  size := second.size.trans first.size
  recvBuf c := (second.recvBuf c).trans (first.recvBuf c)

theorem sameBuffers_closeSocket (server : THEpollServer) (c : Nat) :
    SameBuffers server (server.closeSocket c) := by
  unfold closeSocket
  dsimp only
  split
  · exact ⟨rfl, rfl, rfl, fun _ => rfl⟩
  · refine SameBuffers.trans ?_ (sameBuffers_killSocket _ c)
    refine ⟨rfl, rfl, rfl, fun other => ?_⟩
    by_cases same : other = c
    · subst same
      simp [THContextMgr.set]
    · simp [THContextMgr.set, same]

/-! ## Filling a chain -/

theorem load_next (buf : THBuffer) (c : Nat) (context : THContext) (postClose : Bool)
    (data : List Byte) : (load buf c context postClose data).next = buf.next := rfl

theorem load_pending (buf : THBuffer) (c : Nat) (context : THContext) (postClose : Bool)
    (data : List Byte) : (load buf c context postClose data).pending = data :=
  THBuffer.pending_addData
    { buf with socket := context.socket, context := some c, uid := context.uid, postClose } data

/-- The buffer was filled for the current connection of a context. -/
structure FilledFor (buf : THBuffer) (c : Nat) (context : THContext) : Prop where
  context_eq : buf.context = some c
  uid_eq : buf.uid = context.uid
  socket_eq : buf.socket = context.socket

/-- Filling spreads the data over the chain and leaves all links and other buffers alone. -/
theorem fill_spec (c : Nat) (context : THContext) (postClose : Bool) {bufLen lastLen : Nat}
    {buffers : Nat → THBuffer} {b last : Nat} {front : List Nat} {data : List Byte}
    (chain : Chain (fun buf => (buffers buf).next) (some b) (front ++ [last]) none)
    (nodup : (front ++ [last]).Nodup) (length_eq : data.length = front.length * bufLen + lastLen) :
    ∃ buffers', fill bufLen lastLen c context postClose front.length buffers b data =
        some (buffers', last) ∧
      (∀ buf, (buffers' buf).next = (buffers buf).next) ∧
      (∀ buf, buf ∉ front ++ [last] → buffers' buf = buffers buf) ∧
      (∀ buf ∈ front ++ [last], FilledFor (buffers' buf) c context) ∧
      (front ++ [last]).flatMap (fun buf => (buffers' buf).pending) = data := by
  induction front generalizing buffers b data with
  | nil =>
      obtain rfl := Option.some.inj chain.1
      have whole : data.take lastLen = data := by
        rw [List.take_of_length_le]
        simp only [List.length_nil] at length_eq
        omega
      refine ⟨_, rfl, fun buf => ?_, fun buf outside => ?_, fun buf member => ?_, ?_⟩
      · by_cases same : buf = b
        · subst same
          rw [Function.update_self, load_next]
        · rw [Function.update_of_ne same]
      · exact Function.update_of_ne (by simpa using outside) _ _
      · obtain rfl : buf = b := by simpa using member
        rw [Function.update_self]
        exact ⟨rfl, rfl, rfl⟩
      · simp [load_pending, whole]
  | cons cell front induction =>
      obtain ⟨same, tail⟩ := chain
      obtain rfl := Option.some.inj same
      obtain ⟨notMem, nodup⟩ := List.nodup_cons.mp nodup
      let buffers₁ := Function.update buffers b
        (load (buffers b) c context false (data.take bufLen))
      have next_eq (buf : Nat) : (buffers₁ buf).next = (buffers buf).next := by
        by_cases same : buf = b
        · subst same
          simp only [buffers₁, Function.update_self, load_next]
        · simp only [buffers₁, Function.update_of_ne same]
      obtain ⟨b', link⟩ : ∃ b', (buffers b).next = some b' := by
        cases front with
        | nil => exact ⟨_, tail.1⟩
        | cons other front => exact ⟨_, tail.1⟩
      have tail' : Chain (fun buf => (buffers₁ buf).next) (some b') (front ++ [last]) none := by
        rw [← link]
        exact tail.congr fun buf _ => next_eq buf
      have rest_length : (data.drop bufLen).length = front.length * bufLen + lastLen := by
        rw [List.length_drop, length_eq, List.length_cons, Nat.succ_mul]
        omega
      obtain ⟨buffers', filled, nexts, others, filledFor, bytes⟩ :=
        induction tail' nodup rest_length
      have head_eq : buffers' b = load (buffers b) c context false (data.take bufLen) := by
        rw [others b notMem]
        exact Function.update_self ..
      refine ⟨buffers', ?_, fun buf => (nexts buf).trans (next_eq buf), fun buf outside => ?_,
        fun buf member => ?_, ?_⟩
      · have link' : (buffers₁ b).next = some b' := (next_eq b).trans link
        simp only [List.length_cons, fill]
        rw [show Function.update buffers b
          (load (buffers b) c context false (data.take bufLen)) = buffers₁ from rfl, link']
        exact filled
      · rw [List.cons_append, List.mem_cons, not_or] at outside
        rw [others buf outside.2]
        exact Function.update_of_ne outside.1 _ _
      · rcases List.mem_cons.mp member with rfl | later
        · rw [head_eq]
          exact ⟨rfl, rfl, rfl⟩
        · exact filledFor buf later
      · rw [List.cons_append, List.flatMap_cons, bytes, head_eq, load_pending,
          List.take_append_drop]

/-! ## Queueing a payload -/

/-- The number of buffers which a payload needs. -/
def needed (bufLen len : Nat) : Nat := (len - 1) / bufLen + 1

theorem needed_eq {bufLen : Nat} (one_lt : 1 < bufLen) (len : Nat) :
    ((len : Int) - 1).tdiv bufLen + 1 = (needed bufLen len : Nat) := by
  cases len with
  | zero =>
      have small : (1 : Nat) / bufLen = 0 := Nat.div_eq_of_lt one_lt
      have zero : (-1 : Int).tdiv bufLen = 0 := by
        rw [Int.neg_tdiv, show (1 : Int) = ((1 : Nat) : Int) from rfl, ← Int.ofNat_tdiv, small]
        rfl
      simp [needed, zero]
  | succ len =>
      have pred : ((len + 1 : Nat) : Int) - 1 = (len : Int) := by omega
      rw [pred, ← Int.ofNat_tdiv]
      simp [needed]

theorem lastLen_eq {bufLen : Nat} (one_lt : 1 < bufLen) (len : Nat) :
    len = (needed bufLen len - 1) * bufLen + (((len : Int) - 1).tmod bufLen + 1).toNat := by
  cases len with
  | zero =>
      have small : (1 : Nat) % bufLen = 1 := Nat.mod_eq_of_lt one_lt
      have minus : (-1 : Int).tmod bufLen = -1 := by
        rw [Int.neg_tmod, show (1 : Int) = ((1 : Nat) : Int) from rfl, ← Int.ofNat_tmod, small]
      simp [needed, minus]
  | succ len =>
      have pred : ((len + 1 : Nat) : Int) - 1 = (len : Int) := by omega
      rw [pred, ← Int.ofNat_tmod]
      have divided := Nat.div_add_mod len bufLen
      simp only [needed, Nat.add_sub_cancel]
      rw [Nat.mul_comm] at divided
      omega

/-- A payload that was not queued leaves no trace outside the free buffers. -/
structure Refused (server next : THEpollServer) (lists : Place → List Nat) : Prop where
  conserved : next.Conserved lists
  cache : next.cache = server.cache
  contextMgr : next.contextMgr = server.contextMgr
  outgoing : next.outgoing = server.outgoing
  others : ∀ buf, buf ∉ lists .free → next.bufferMgr.buffers buf = server.bufferMgr.buffers buf

/-- A payload that was queued fills the first free buffers, which become the chain of a block. -/
structure Queued (server next : THEpollServer) (lists : Place → List Nat) (c : Nat)
    (data : List Byte) (block count : Nat) : Prop where
  free : server.cache.fb = some block
  conserved : next.Conserved (transfer lists .free (.chain block) count)
  cache : ∃ value, next.cache = (server.cache.add value).2
  contextMgr : next.contextMgr = server.contextMgr
  outgoing : next.outgoing = server.outgoing
  others : ∀ buf, buf ∉ lists .free → next.bufferMgr.buffers buf = server.bufferMgr.buffers buf
  filledFor : ∀ buf ∈ (lists .free).take count,
    FilledFor (next.bufferMgr.buffers buf) c (server.contextMgr.contexts c)
  bytes : ((lists .free).take count).flatMap (fun buf => (next.bufferMgr.buffers buf).pending) =
    data

/-- The payload fills a chain that is cut off the free chain. -/
theorem Conserved.takeFilled (conserved : server.Conserved lists) (postClose : Bool) (c : Nat)
    (data : List Byte) {count : Nat} (count_eq : count = needed server.bufLen data.length)
    (enough : count ≤ (lists .free).length) :
    ∃ b bufferMgr buffers last front,
      server.bufferMgr.getBufferEx count = some (some b, bufferMgr) ∧
      fill server.bufLen (((data.length : Int) - 1).tmod server.bufLen + 1).toNat c
          (server.contextMgr.contexts c) postClose ((count : Int) - 1).toNat bufferMgr.buffers b
          data = some (buffers, last) ∧
      (lists .free).take count = front ++ [last] ∧
      Chain (fun buf => (buffers buf).next) (some b) (front ++ [last]) none ∧
      ({ bufferMgr with buffers } : THBufferMgr).Free ((lists .free).drop count) ∧
      bufferMgr.size = server.bufferMgr.size ∧
      (∀ buf, buf ∉ front ++ [last] → buffers buf = server.bufferMgr.buffers buf) ∧
      (∀ buf ∈ front ++ [last], FilledFor (buffers buf) c (server.contextMgr.contexts c)) ∧
      (front ++ [last]).flatMap (fun buf => (buffers buf).pending) = data := by
  have nodup := conserved.partition.nodup .free
  have count_pos : 0 < count := count_eq ▸ Nat.succ_pos _
  obtain ⟨b, bufferMgr, taken, chain, free, sameData, untouched⟩ :=
    conserved.free.getBufferEx nodup count_pos enough
  have take_ne : (lists .free).take count ≠ [] := by
    intro empty
    rw [empty] at chain
    simp at chain
  obtain ⟨front, last, take_eq⟩ : ∃ front last, (lists .free).take count = front ++ [last] :=
    ⟨_, _, (List.dropLast_concat_getLast take_ne).symm⟩
  have front_length : front.length = count - 1 := by
    have := congrArg List.length take_eq
    simp only [List.length_take, List.length_append, List.length_singleton] at this
    omega
  have rounds_eq : ((count : Int) - 1).toNat = front.length := by omega
  rw [take_eq] at chain untouched
  have take_nodup : (front ++ [last]).Nodup := take_eq ▸ nodup.sublist (List.take_sublist _ _)
  have length_eq := lastLen_eq server.one_lt data.length
  rw [← count_eq, ← front_length] at length_eq
  obtain ⟨buffers, filled, nexts, others, filledFor, bytes⟩ :=
    fill_spec c (server.contextMgr.contexts c) postClose chain take_nodup length_eq
  refine ⟨b, bufferMgr, buffers, last, front, taken, rounds_eq ▸ filled, take_eq,
    chain.congr fun buf _ => nexts buf, ⟨free.chain.congr fun buf _ => nexts buf, free.count⟩,
    sameData.1, fun buf outside => ?_, filledFor, bytes⟩
  rw [others buf outside, untouched buf outside]

/-- The links of a queued chain survive calls which only touch other buffers. -/
theorem Conserved.chain_congr (conserved : server.Conserved lists) {block : Nat}
    (used : server.cache.Used block) {source : Place} (different : source ≠ .chain block)
    {bufferMgr : THBufferMgr}
    (others : ∀ buf, buf ∉ lists source → bufferMgr.buffers buf = server.bufferMgr.buffers buf) :
    Chain bufferMgr.nexts (server.cache.buf block).data (lists (.chain block)) none := by
  refine (conserved.chain used).congr fun buf member => ?_
  have outside : buf ∉ lists source :=
    fun member' => different (conserved.partition.single member' member)
  exact congrArg THBuffer.next (others buf outside)

/-- Putting the filled chain back restores the free chain. -/
theorem Conserved.putBack (conserved : server.Conserved lists) {bufferMgr : THBufferMgr}
    {b last count : Nat} {front : List Nat} (take_eq : (lists .free).take count = front ++ [last])
    (count_eq : count = front.length + 1)
    (chain : Chain bufferMgr.nexts (some b) (front ++ [last]) none)
    (free : bufferMgr.Free ((lists .free).drop count))
    (size_eq : bufferMgr.size = server.bufferMgr.size)
    (others : ∀ buf, buf ∉ lists .free → bufferMgr.buffers buf = server.bufferMgr.buffers buf) :
    Refused server { server with bufferMgr := bufferMgr.putBufferEx b last count } lists := by
  have free_eq : front ++ [last] ++ (lists .free).drop count = lists .free := by
    rw [← take_eq, List.take_append_drop]
  have nodup : (front ++ [last] ++ (lists .free).drop count).Nodup := by
    rw [free_eq]
    exact conserved.partition.nodup .free
  obtain ⟨isFree, _, kept⟩ := free.putBufferEx chain nodup
  rw [free_eq, show (front.length : Int) + 1 = (count : Int) by omega] at isFree
  rw [show (front.length : Int) + 1 = (count : Int) by omega] at kept
  have others' (buf : Nat) (outside : buf ∉ lists .free) :
      (bufferMgr.putBufferEx b last count).buffers buf = server.bufferMgr.buffers buf := by
    have different : buf ≠ last := by
      rintro rfl
      exact outside (List.mem_of_mem_take (take_eq ▸ by simp : buf ∈ (lists .free).take count))
    rw [kept buf different, others buf outside]
  refine ⟨⟨?_, isFree, conserved.recvBuf, ?_, conserved.nonempty, conserved.unused,
    conserved.linked⟩, rfl, rfl, rfl, others'⟩
  · have size_eq' : (bufferMgr.putBufferEx b last count).size = server.bufferMgr.size := size_eq
    exact size_eq' ▸ conserved.partition
  · intro block used
    exact conserved.chain_congr used (by simp) others'

/-- Adding the filled chain to the cache makes it the chain of a new block. -/
theorem Conserved.addChain (conserved : server.Conserved lists) {bufferMgr : THBufferMgr}
    {b count block : Nat} (block_eq : server.cache.fb = some block)
    (chain : Chain bufferMgr.nexts (some b) ((lists .free).take count) none)
    (free : bufferMgr.Free ((lists .free).drop count))
    (size_eq : bufferMgr.size = server.bufferMgr.size)
    (others : ∀ buf, buf ∉ lists .free → bufferMgr.buffers buf = server.bufferMgr.buffers buf) :
    ({ server with bufferMgr, cache := (server.cache.add (some b)).2 } : THEpollServer).Conserved
      (transfer lists .free (.chain block) count) := by
  have linked := conserved.linked
  have different : Place.free ≠ .chain block := by simp
  have used_iff := linked.add_used block_eq (some b)
  have unused_block : lists (.chain block) = [] :=
    conserved.unused fun used => by simpa [used.2] using (linked.fb_unused block_eq).2
  have target_eq : transfer lists .free (.chain block) count (.chain block) =
      (lists .free).take count := by
    rw [transfer_target, unused_block, List.append_nil]
  have other_eq {k : Nat} (k_ne : k ≠ block) :
      transfer lists .free (.chain block) count (.chain k) = lists (.chain k) :=
    transfer_other (by simp) (by simpa using k_ne)
  refine ⟨size_eq ▸ transfer_partition conserved.partition different count, ?_, ?_, ?_, ?_, ?_,
    linked.add (some b)⟩
  · rw [transfer_source different]
    exact free
  · intro c
    rw [transfer_other (by simp) (by simp)]
    exact conserved.recvBuf c
  · intro k used
    rw [linked.add_data block_eq]
    by_cases same : k = block
    · subst same
      rw [if_pos rfl, target_eq]
      exact chain
    · rw [if_neg same, other_eq same]
      have used' := ((used_iff k).mp used).resolve_left same
      exact conserved.chain_congr used' (by simp) others
  · intro k used
    by_cases same : k = block
    · subst same
      rw [target_eq]
      intro empty
      rw [empty] at chain
      simp at chain
    · rw [other_eq same]
      exact conserved.nonempty (((used_iff k).mp used).resolve_left same)
  · intro k unused
    rw [used_iff, not_or] at unused
    rw [other_eq unused.1]
    exact conserved.unused unused.2

/-- A payload is queued in a chain which `fill` has filled. -/
theorem Conserved.sendChain_fill (conserved : server.Conserved lists) (postClose : Bool) (c : Nat)
    (data : List Byte) :
    ∃ added next, server.sendChain postClose c data = some (added, next) ∧
      if added then ∃ block b buffers last front,
        Queued server next lists c data block (front.length + 1) ∧
        needed server.bufLen data.length = front.length + 1 ∧
        (lists .free).take (front.length + 1) = front ++ [last] ∧
        fill server.bufLen (((data.length : Int) - 1).tmod server.bufLen + 1).toNat c
          (server.contextMgr.contexts c) postClose front.length buffers b data =
            some (next.bufferMgr.buffers, last) ∧
        Chain (fun buf => (next.bufferMgr.buffers buf).next) (some b) (front ++ [last]) none
      else Refused server next lists := by
  generalize count_eq : needed server.bufLen data.length = count
  have j_eq := needed_eq server.one_lt data.length
  rw [count_eq] at j_eq
  have nodup := conserved.partition.nodup .free
  simp only [THEpollServer.sendChain, j_eq]
  by_cases few : (lists .free).length < count
  · refine ⟨false, server, ?_, ⟨conserved, rfl, rfl, rfl, fun _ _ => rfl⟩⟩
    rw [conserved.free.getBufferEx_none few]
  · obtain ⟨b, bufferMgr, buffers, last, front, taken, filled, take_eq, chain, free, size_eq,
      others, filledFor, bytes⟩ :=
      conserved.takeFilled postClose c data count_eq.symm (Nat.le_of_not_lt few)
    rw [taken]
    dsimp only
    rw [filled]
    dsimp only
    have others' (buf : Nat) (outside : buf ∉ lists .free) :
        buffers buf = server.bufferMgr.buffers buf :=
      others buf fun member => outside (List.mem_of_mem_take (take_eq ▸ member))
    have count_eq' : count = front.length + 1 := by
      have := congrArg List.length take_eq
      simp only [List.length_take, List.length_append, List.length_singleton] at this
      omega
    cases full : server.cache.fb with
    | none =>
        rw [THQCache.add_of_full full]
        exact ⟨false, _, rfl, conserved.putBack take_eq count_eq' chain free size_eq others'⟩
    | some block =>
        have added : (server.cache.add (some b)).1 = true := by simp [THQCache.add_of_free full]
        have pair_eq : server.cache.add (some b) = (true, (server.cache.add (some b)).2) :=
          Prod.ext added rfl
        have rounds_eq : ((count : Int) - 1).toNat = front.length := by omega
        rw [pair_eq]
        rw [rounds_eq] at filled
        refine ⟨true, _, rfl, block, b, bufferMgr.buffers, last, front, ?_, count_eq',
          count_eq' ▸ take_eq, filled, chain⟩
        rw [← count_eq']
        refine ⟨full, ?_, ⟨some b, rfl⟩, rfl, rfl, others', ?_, ?_⟩
        · exact conserved.addChain full (take_eq ▸ chain) free size_eq others'
        · rw [take_eq]
          exact filledFor
        · rw [take_eq]
          exact bytes

/-- `SendData` and `SendDataAndPostClose` return, and queue the whole payload or nothing. -/
theorem Conserved.sendChain (conserved : server.Conserved lists) (postClose : Bool) (c : Nat)
    (data : List Byte) :
    ∃ added next, server.sendChain postClose c data = some (added, next) ∧
      if added then ∃ block count, Queued server next lists c data block count
      else Refused server next lists := by
  obtain ⟨added, next, returned, outcome⟩ := conserved.sendChain_fill postClose c data
  cases added with
  | true =>
      obtain ⟨block, _, _, _, front, queued, _⟩ := outcome
      exact ⟨true, next, returned, block, front.length + 1, queued⟩
  | false => exact ⟨false, next, returned, outcome⟩

/-! ## Giving buffers back -/

theorem chainEnd_eq {buffers : Nat → THBuffer} {start last : Nat} {front : List Nat}
    (chain : Chain (fun buf => (buffers buf).next) (some start) (front ++ [last]) none)
    {fuel : Nat} (enough : front.length < fuel) (ret : Nat) :
    chainEnd buffers fuel start ret = some (last, ret + front.length) := by
  induction front generalizing start fuel ret with
  | nil =>
      obtain ⟨fuel, rfl⟩ := Nat.exists_eq_succ_of_ne_zero (Nat.ne_of_gt enough)
      obtain ⟨same, link⟩ := chain
      obtain rfl := Option.some.inj same
      have link' : (buffers start).next = none := link
      simp [chainEnd, link']
  | cons cell front induction =>
      obtain ⟨fuel, rfl⟩ := Nat.exists_eq_succ_of_ne_zero
        (Nat.ne_of_gt (Nat.lt_of_le_of_lt (Nat.zero_le _) enough))
      obtain ⟨same, tail⟩ := chain
      obtain rfl := Option.some.inj same
      obtain ⟨next, link⟩ : ∃ next, (buffers start).next = some next := by
        cases front with
        | nil => exact ⟨_, tail.1⟩
        | cons other front => exact ⟨_, tail.1⟩
      have tail' : Chain (fun buf => (buffers buf).next) (some next) (front ++ [last]) none :=
        link ▸ tail
      have shorter : front.length < fuel := by
        rw [List.length_cons] at enough
        omega
      simp only [chainEnd, link]
      rw [induction tail' shorter, List.length_cons]
      congr 2
      omega

/-- The block's entry once the front of its chain is given back: the block goes with its last
buffer, and otherwise holds the rest of the chain. -/
def afterFront (cache : THQCache Nat) (block : Nat) (rest : List Nat) : THQCache Nat :=
  match rest with
  | [] => cache.release block
  | b :: _ => cache.setData block (some b)

theorem afterFront_used_of_ne {cache : THQCache Nat} {block k : Nat} (k_ne : k ≠ block)
    (rest : List Nat) : (afterFront cache block rest).Used k ↔ cache.Used k := by
  cases rest with
  | nil => simp [afterFront, THQCache.release_used, k_ne]
  | cons => simp [afterFront]

/-- The block stays in use exactly as long as something of its chain is left. -/
theorem afterFront_used {cache : THQCache Nat} {block : Nat} (used : cache.Used block)
    (rest : List Nat) : (afterFront cache block rest).Used block ↔ rest ≠ [] := by
  cases rest with
  | nil => simp [afterFront, THQCache.release_used]
  | cons => simpa [afterFront] using used

theorem afterFront_data_of_ne {cache : THQCache Nat} {block k : Nat} (k_ne : k ≠ block)
    (rest : List Nat) : ((afterFront cache block rest).buf k).data = (cache.buf k).data := by
  cases rest with
  | nil => exact THQCache.release_data k_ne
  | cons => simp [afterFront, THQCache.setData_data, k_ne]

/-- Giving back the front of a block's chain. -/
theorem Conserved.giveBack (conserved : server.Conserved lists) {block b tail : Nat}
    (front rest : List Nat) (used : server.cache.Used block)
    (data_eq : (server.cache.buf block).data = some b)
    (chain_eq : lists (.chain block) = front ++ [tail] ++ rest) :
    ({ server with
        bufferMgr := server.bufferMgr.putBufferEx b tail (front.length + 1)
        cache := afterFront server.cache block rest } : THEpollServer).Conserved
      (transfer lists (.chain block) .free (front.length + 1)) := by
  have linked := conserved.linked
  have different : Place.chain block ≠ .free := by simp
  have split_length : (front ++ [tail]).length = front.length + 1 := by simp
  have take_eq : (lists (.chain block)).take (front.length + 1) = front ++ [tail] := by
    rw [chain_eq, List.take_append_of_le_length (by omega), List.take_of_length_le (by omega)]
  have drop_eq : (lists (.chain block)).drop (front.length + 1) = rest := by
    rw [chain_eq, ← split_length, List.drop_left]
  have chain := conserved.chain used
  rw [data_eq, chain_eq] at chain
  obtain ⟨middle, first, second⟩ := Chain.append_iff.mp chain
  have tail_mem : tail ∈ lists (.chain block) := by simp [chain_eq]
  have nodup : (front ++ [tail] ++ lists .free).Nodup := by
    have moved := (transfer_partition conserved.partition different (front.length + 1)).nodup .free
    rwa [transfer_target, take_eq] at moved
  obtain ⟨isFree, _, kept⟩ := conserved.free.putBufferEx first nodup
  have others {buf : Nat} (outside : buf ∉ lists (.chain block)) :
      (server.bufferMgr.putBufferEx b tail (front.length + 1)).buffers buf =
        server.bufferMgr.buffers buf :=
    kept buf fun same => outside (same ▸ tail_mem)
  have other_eq {k : Nat} (k_ne : k ≠ block) :
      transfer lists (.chain block) .free (front.length + 1) (.chain k) = lists (.chain k) :=
    transfer_other (by simpa using k_ne) (by simp)
  have source_eq : transfer lists (.chain block) .free (front.length + 1) (.chain block) = rest := by
    rw [transfer_source different, drop_eq]
  refine ⟨?_, ?_, ?_, ?_, ?_, ?_, ?_⟩
  · exact transfer_partition conserved.partition different _
  · rw [transfer_target, take_eq]
    exact isFree
  · intro c
    rw [transfer_other (by simp) (by simp)]
    exact conserved.recvBuf c
  · intro k used'
    by_cases same : k = block
    · subst same
      rw [source_eq]
      have rest_ne := (afterFront_used used rest).mp used'
      have rest_agree : ∀ buf ∈ rest,
          (server.bufferMgr.putBufferEx b tail (front.length + 1)).nexts buf =
            server.bufferMgr.nexts buf := by
        intro buf member
        refine congrArg THBuffer.next (kept buf ?_)
        rintro rfl
        have nodup' := conserved.partition.nodup (.chain k)
        rw [chain_eq] at nodup'
        exact (List.nodup_append.mp nodup').2.2 buf (by simp) buf member rfl
      have start_eq : ((afterFront server.cache k rest).buf k).data = middle := by
        cases rest with
        | nil => exact absurd rfl rest_ne
        | cons first rest => simp [afterFront, THQCache.setData_data, second.1]
      rw [start_eq]
      exact second.congr rest_agree
    · rw [other_eq same, afterFront_data_of_ne same]
      refine (conserved.chain ((afterFront_used_of_ne same rest).mp used')).congr fun buf member => ?_
      refine congrArg THBuffer.next (others fun member' => same ?_)
      simpa using conserved.partition.single member member'
  · intro k used'
    by_cases same : k = block
    · subst same
      rw [source_eq]
      exact (afterFront_used used rest).mp used'
    · rw [other_eq same]
      exact conserved.nonempty ((afterFront_used_of_ne same rest).mp used')
  · intro k unused
    by_cases same : k = block
    · subst same
      rw [source_eq]
      by_contra rest_ne
      exact unused ((afterFront_used used rest).mpr rest_ne)
    · rw [other_eq same]
      exact conserved.unused fun used' =>
        unused ((afterFront_used_of_ne same rest).mpr used')
  · cases rest with
    | nil => exact linked.release used
    | cons first rest => exact linked.setData block (some first)

/-- A stale chain goes back as a whole, with its block. -/
theorem Conserved.discard (conserved : server.Conserved lists) {block b : Nat}
    (used : server.cache.Used block) (data_eq : (server.cache.buf block).data = some b) :
    ∃ bufferMgr,
      server.discard block b =
        some (0, { server with bufferMgr, cache := server.cache.release block }) ∧
      ({ server with bufferMgr, cache := server.cache.release block } : THEpollServer).Conserved
        (transfer lists (.chain block) .free (lists (.chain block)).length) ∧
      server.bufferMgr.SameData bufferMgr := by
  obtain ⟨front, last, chain_eq⟩ : ∃ front last, lists (.chain block) = front ++ [last] :=
    ⟨_, _, (List.dropLast_concat_getLast (conserved.nonempty used)).symm⟩
  have chain := conserved.chain used
  rw [data_eq, chain_eq] at chain
  have enough := conserved.partition.length_le (.chain block)
  rw [chain_eq, List.length_append, List.length_singleton] at enough
  have ended := chainEnd_eq chain (Nat.lt_of_lt_of_le (Nat.lt_succ_self _) enough) 1
  have count_eq : ((1 + front.length : Nat) : Int) = front.length + 1 := by omega
  have length_eq : (lists (.chain block)).length = front.length + 1 := by simp [chain_eq]
  refine ⟨server.bufferMgr.putBufferEx b last (front.length + 1), ?_, ?_,
    server.bufferMgr.sameData_setNext last _⟩
  · simp only [THEpollServer.discard, ended, count_eq]
  · rw [length_eq]
    exact conserved.giveBack front [] used data_eq (by rw [chain_eq, List.append_nil])

/-- A partial send moves the position of one buffer. -/
theorem Conserved.sentPart (conserved : server.Conserved lists) (b count : Nat) :
    (server.sentPart b count).Conserved lists := by
  refine conserved.congr rfl rfl rfl (fun buf => ?_) rfl rfl fun _ => rfl
  by_cases same : buf = b
  · subst same
    simp [THEpollServer.sentPart, THBufferMgr.nexts]
  · simp [THEpollServer.sentPart, THBufferMgr.nexts, same]

theorem Conserved.giveFirst (conserved : server.Conserved lists) {block b : Nat} {rest : List Nat}
    (used : server.cache.Used block) (chain_eq : lists (.chain block) = b :: rest) :
    (server.giveFirst block b).Conserved (transfer lists (.chain block) .free 1) := by
  have chain := conserved.chain used
  rw [chain_eq] at chain
  obtain ⟨data_eq, tail⟩ := chain
  have link : (server.bufferMgr.buffers b).next = rest.head? := tail.head?_eq
  have given := conserved.giveBack [] rest used data_eq chain_eq
  unfold THEpollServer.giveFirst
  rw [link]
  cases rest <;> exact given

theorem Conserved.clearPostClose (conserved : server.Conserved lists) (b : Nat) :
    (server.clearPostClose b).Conserved lists := by
  refine conserved.congr rfl rfl rfl (fun buf => ?_) rfl rfl fun _ => rfl
  by_cases same : buf = b
  · subst same
    simp [THEpollServer.clearPostClose, THBufferMgr.nexts]
  · simp [THEpollServer.clearPostClose, THBufferMgr.nexts, same]

/-- A whole send gives the first buffer of the chain back. -/
theorem Conserved.sentWhole (conserved : server.Conserved lists) {block b : Nat} {rest : List Nat}
    (used : server.cache.Used block) (chain_eq : lists (.chain block) = b :: rest) (c : Nat) :
    (server.sentWhole block b c).Conserved (transfer lists (.chain block) .free 1) := by
  unfold THEpollServer.sentWhole
  split
  · have same := server.sameBuffers_closeSocket c
    have given := (same.conserved conserved).giveFirst (same.cache ▸ used) chain_eq
    exact (sameBuffers_killSocket _ c).conserved (given.clearPostClose b)
  · exact conserved.giveFirst used chain_eq

/-- The data of a used block is the first buffer of its chain. -/
theorem Conserved.first (conserved : server.Conserved lists) {block : Nat}
    (used : server.cache.Used block) :
    ∃ b rest, lists (.chain block) = b :: rest ∧ (server.cache.buf block).data = some b := by
  obtain ⟨b, rest, chain_eq⟩ := List.exists_cons_of_ne_nil (conserved.nonempty used)
  have chain := conserved.chain used
  rw [chain_eq] at chain
  exact ⟨b, rest, chain_eq, chain.1⟩

/-- `WriteSocket` on a used block returns and keeps the partition. -/
theorem Conserved.writeSocket (conserved : server.Conserved lists) {block : Nat}
    (used : server.cache.Used block) (result : SendResult) :
    ∃ i next lists', server.writeSocket block result = some (i, next) ∧ next.Conserved lists' := by
  obtain ⟨b, rest, chain_eq, data_eq⟩ := conserved.first used
  simp only [THEpollServer.writeSocket, data_eq]
  cases server.connectionOf (server.bufferMgr.buffers b) with
  | none =>
      obtain ⟨bufferMgr, result, given, _⟩ := conserved.discard used data_eq
      exact ⟨_, _, _, result, given⟩
  | some c =>
      have killed := (server.sameBuffers_killSocket c).conserved conserved
      match result with
      | .sent (count + 1) =>
          let buf := server.bufferMgr.buffers b
          let outgoing := server.outgoing ++
            [{ context := c, socket := buf.socket, bytes := buf.pending.take (count + 1) }]
          have logged : ({ server with outgoing } : THEpollServer).Conserved lists :=
            conserved.congr rfl rfl rfl (fun _ => rfl) rfl rfl fun _ => rfl
          dsimp only
          split
          · exact ⟨_, _, _, rfl, logged.sentWhole used chain_eq c⟩
          · exact ⟨_, _, _, rfl, logged.sentPart b (count + 1)⟩
      | .sent 0 => exact ⟨_, _, _, rfl, killed⟩
      | .again => exact ⟨_, _, _, rfl, conserved⟩
      | .failed => exact ⟨_, _, _, rfl, killed⟩

/-! ## Runs -/

/-- Every call keeps the partition. -/
theorem Conserved.step (conserved : server.Conserved lists) {op : Op}
    (result : server.step op = some next) : ∃ lists', next.Conserved lists' := by
  have sent {postClose : Bool} {c : Nat} {data : List Byte}
      (result : (server.sendChain postClose c data).map Prod.snd = some next) :
      ∃ lists', next.Conserved lists' := by
    obtain ⟨added, next', returned, outcome⟩ := conserved.sendChain postClose c data
    rw [returned] at result
    obtain rfl : next' = next := Option.some.inj result
    cases added with
    | true =>
        obtain ⟨_, _, queued⟩ := outcome
        exact ⟨_, queued.conserved⟩
    | false => exact ⟨_, Refused.conserved outcome⟩
  cases op with
  | connect socket uid =>
      obtain rfl := Option.some.inj result
      exact ⟨_, (server.sameBuffers_connect socket uid).conserved conserved⟩
  | sendData c data =>
      simp only [THEpollServer.step, Option.ite_none_right_eq_some] at result
      exact sent result.2
  | sendDataAndPostClose c data =>
      simp only [THEpollServer.step, Option.ite_none_right_eq_some] at result
      exact sent result.2
  | writeSocket block sendResult =>
      simp only [THEpollServer.step, Option.ite_none_right_eq_some] at result
      obtain ⟨⟨used, _⟩, result⟩ := result
      obtain ⟨_, next', lists', returned, conserved'⟩ := conserved.writeSocket used sendResult
      rw [returned] at result
      obtain rfl : next' = next := Option.some.inj result
      exact ⟨lists', conserved'⟩
  | killSocket c =>
      simp only [THEpollServer.step, Option.ite_none_right_eq_some, Option.some.injEq] at result
      obtain ⟨_, rfl⟩ := result
      exact ⟨_, (server.sameBuffers_killSocket c).conserved conserved⟩
  | closeSocket c =>
      simp only [THEpollServer.step, Option.ite_none_right_eq_some, Option.some.injEq] at result
      obtain ⟨_, rfl⟩ := result
      exact ⟨_, (server.sameBuffers_closeSocket c).conserved conserved⟩

/-- Before any context is created all buffers are free. -/
def poolPlaces (size : Nat) : Place → List Nat
  | .free => (List.range size).reverse
  | _ => []

theorem poolPlaces_partition (size : Nat) : Partition size (poolPlaces size) := by
  have mem_iff {buf : Nat} {place : Place} :
      buf ∈ poolPlaces size place ↔ place = .free ∧ buf < size := by
    cases place <;> simp [poolPlaces]
  refine ⟨fun member => (mem_iff.mp member).2, fun inside => ⟨.free, mem_iff.mpr ⟨rfl, inside⟩⟩,
    fun member member' => (mem_iff.mp member).1.trans (mem_iff.mp member').1.symm, fun place => ?_⟩
  cases place with
  | free => exact List.nodup_reverse.mpr List.nodup_range
  | recvBuf c => exact List.nodup_nil
  | chain block => exact List.nodup_nil

/-- A new context takes one free buffer. -/
theorem Conserved.newContext (conserved : server.Conserved lists) {recvBuf : Nat}
    {bufferMgr : THBufferMgr} (taken : server.bufferMgr.getBuffer = (some recvBuf, bufferMgr))
    (context : THContext) (context_eq : context.recvBuf = recvBuf) :
    ({ server with
        bufferMgr := { bufferMgr with
          buffers := Function.update bufferMgr.buffers recvBuf (bufferMgr.buffers recvBuf).init }
        contextMgr := { server.contextMgr.set server.contextMgr.size context with
          size := server.contextMgr.size + 1
          count := server.contextMgr.count + 1
          current := some server.contextMgr.size } } : THEpollServer).Conserved
      (transfer lists .free (.recvBuf server.contextMgr.size) 1) := by
  obtain ⟨rest, free_eq⟩ : ∃ rest, lists .free = recvBuf :: rest := by
    have chain := conserved.free.chain
    cases free_eq : lists .free with
    | nil =>
        rw [free_eq] at chain
        have empty : server.bufferMgr.current = none := chain
        simp [THBufferMgr.getBuffer, empty] at taken
    | cons first rest =>
        rw [free_eq] at chain
        have head : server.bufferMgr.current = some first := chain.1
        simp only [THBufferMgr.getBuffer, head, Prod.mk.injEq, Option.some.injEq] at taken
        exact ⟨rest, by rw [taken.1]⟩
  have free := conserved.free
  rw [free_eq] at free
  obtain ⟨taken', free'⟩ := free.getBuffer
  rw [taken'] at taken free'
  obtain rfl := (Prod.mk.inj taken).2
  have different : Place.free ≠ .recvBuf server.contextMgr.size := by simp
  have nexts_eq (buf : Nat) : (Function.update server.bufferMgr.buffers recvBuf
      (server.bufferMgr.buffers recvBuf).init buf).next = server.bufferMgr.nexts buf := by
    by_cases same : buf = recvBuf
    · subst same
      rw [Function.update_self]
      rfl
    · rw [Function.update_of_ne same]
  have new_empty : lists (.recvBuf server.contextMgr.size) = [] := by
    rw [conserved.recvBuf, if_neg (Nat.lt_irrefl _)]
  refine ⟨transfer_partition conserved.partition different 1, ?_, ?_, ?_, ?_, ?_,
    conserved.linked⟩
  · rw [transfer_source different, free_eq, List.drop_one, List.tail_cons]
    exact ⟨free'.chain.congr fun buf _ => nexts_eq buf, free'.count⟩
  · intro c
    by_cases same : c = server.contextMgr.size
    · subst same
      rw [transfer_target, new_empty, free_eq]
      simp [THContextMgr.set, context_eq]
    · rw [transfer_other (by simp) (by simpa using same), conserved.recvBuf]
      have inside_iff : c < server.contextMgr.size + 1 ↔ c < server.contextMgr.size := by omega
      simp [THContextMgr.set, same, inside_iff]
  · intro block used
    rw [transfer_other (by simp) (by simp)]
    exact (conserved.chain used).congr fun buf _ => nexts_eq buf
  · intro block used
    rw [transfer_other (by simp) (by simp)]
    exact conserved.nonempty used
  · intro block unused
    rw [transfer_other (by simp) (by simp)]
    exact conserved.unused unused

/-- The constructor of the context manager takes one buffer for each context. -/
theorem Conserved.create (conserved : server.Conserved lists) {memory : Nat → THContext}
    (new : server.contextMgr = { size := 0, count := 0, current := none, contexts := memory })
    {count : Nat} {contextMgr : THContextMgr} {bufferMgr : THBufferMgr}
    (created : THContextMgr.create memory server.bufferMgr count = some (contextMgr, bufferMgr)) :
    contextMgr.size = count ∧
      ∃ lists', ({ server with contextMgr, bufferMgr } : THEpollServer).Conserved lists' := by
  induction count generalizing contextMgr bufferMgr with
  | zero =>
      obtain ⟨rfl, rfl⟩ := Prod.mk.inj (Option.some.inj created)
      rw [← new]
      exact ⟨by rw [new], lists, conserved⟩
  | succ count induction =>
      simp only [THContextMgr.create] at created
      cases before : THContextMgr.create memory server.bufferMgr count with
      | none => simp [before] at created
      | some pair =>
          obtain ⟨mgr, buffers⟩ := pair
          obtain ⟨rfl, lists', conserved'⟩ := induction before
          rw [before] at created
          dsimp only at created
          cases taken : buffers.getBuffer with
          | mk found rest =>
              rw [taken] at created
              cases found with
              | none => simp at created
              | some recvBuf =>
                  obtain ⟨rfl, rfl⟩ := Prod.mk.inj (Option.some.inj created)
                  exact ⟨rfl, _, conserved'.newContext taken _ rfl⟩

/-- The partition after `StartServer`. -/
theorem startServer_conserved {bufLen connection buffer sendCache : Nat} {one_lt : 1 < bufLen}
    {blocks : Nat → THCacheBlock Nat} {buffers : Nat → THBuffer} {contexts : Nat → THContext}
    (started : startServer bufLen one_lt connection buffer sendCache blocks buffers contexts =
      some server) : ∃ lists, server.Conserved lists := by
  let initial : THEpollServer :=
    { bufLen
      one_lt
      bufferMgr := THBufferMgr.new buffer buffers
      contextMgr := { size := 0, count := 0, current := none, contexts }
      cache := THQCache.new sendCache blocks
      outgoing := [] }
  have noneUsed {block : Nat} := THQCache.new_not_used sendCache blocks block
  have conserved : initial.Conserved (poolPlaces buffer) :=
    { partition := poolPlaces_partition buffer
      free := THBufferMgr.new_free buffer buffers
      recvBuf := fun c => by simp [poolPlaces, initial]
      chain := fun used => absurd used noneUsed
      nonempty := fun used => absurd used noneUsed
      unused := fun _ => rfl
      linked := THQCache.new_linked sendCache blocks }
  simp only [startServer] at started
  cases created : THContextMgr.create contexts (THBufferMgr.new buffer buffers) connection with
  | none => simp [created] at started
  | some pair =>
      rw [created] at started
      obtain rfl := Option.some.inj started
      exact (conserved.create rfl created).2

/-- In every reachable state each buffer of the pool is in exactly one place, only buffers of the
pool are, and `Count` is the length of the free chain. -/
theorem reachable_inPlace {bufLen connection buffer sendCache : Nat} {one_lt : 1 < bufLen}
    {blocks : Nat → THCacheBlock Nat} {buffers : Nat → THBuffer} {contexts : Nat → THContext}
    {start : THEpollServer}
    (started : startServer bufLen one_lt connection buffer sendCache blocks buffers contexts =
      some start) (reach : Reachable step start server) :
    (∀ buf < server.bufferMgr.size, ∃! place, server.InPlace buf place) ∧
      (∀ buf place, server.InPlace buf place → buf < server.bufferMgr.size) ∧
      ∃ cells, Chain server.bufferMgr.nexts server.bufferMgr.current cells none ∧
        server.bufferMgr.count = cells.length := by
  obtain ⟨lists, conserved⟩ := reach.invariant (fun server => ∃ lists, server.Conserved lists)
    (startServer_conserved started) fun ⟨_, conserved⟩ result => conserved.step result
  refine ⟨fun buf inside => ?_, fun buf place found => ?_, lists .free, conserved.free.chain,
    conserved.free.count⟩
  · simpa only [conserved.inPlace_iff] using conserved.partition.existsUnique inside
  · exact conserved.partition.inside (conserved.inPlace_iff.mp found)

/-- A server with one context, three buffers and two blocks, on cleared memory. -/
def smallServer : Option THEpollServer :=
  startServer 4096 (by decide) 1 3 2
    (fun _ => { prev := none, next := none, data := none, used := false })
    (fun _ => { next := none, uid := 0, socket := 0, context := none, buffer := fun _ => 0,
                position := 0, size := 0, postClose := false })
    (fun _ => { next := none, uid := 0, socket := 0, isUsing := false, postClose := false,
                connected := false, killed := false, recvBuf := 0 })

/-- Two payloads are queued, the first one is sent in part and the connection is killed. -/
def killOps : List Op :=
  [.connect 5 77, .sendData 0 [1, 2], .sendData 0 [3], .writeSocket 1 (.sent 1), .killSocket 0]

theorem killOps_inPlace :
    ∃ start server, smallServer = some start ∧ run step start killOps = some server ∧
      (∀ buf < server.bufferMgr.size, ∃! place, server.InPlace buf place) ∧
      (∀ buf place, server.InPlace buf place → buf < server.bufferMgr.size) ∧
      ∃ cells, Chain server.bufferMgr.nexts server.bufferMgr.current cells none ∧
        server.bufferMgr.count = cells.length := by
  have completes : (smallServer.bind (run step · killOps)).isSome = true := by decide +kernel
  obtain ⟨server, result⟩ := Option.isSome_iff_exists.mp completes
  obtain ⟨start, started, execution⟩ := Option.bind_eq_some_iff.mp result
  exact ⟨start, server, started, execution, reachable_inPlace started ⟨killOps, execution⟩⟩

end CommonLib.THEpollServer
