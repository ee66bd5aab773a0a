import CommonLib.Library.Fetch
import CommonLib.Proj.EWiFiClient

/-!
# What the command handlers read

The handlers of `conn_resp`, `ap_net_conf`, `ap_dev_conf` and `user_stat` lay the structures of
`ap_type2s.hpp` over `Request->Data`.  They are parsers here, which note the offsets they read; the
memory goes on behind the body.  The shell commands of `driver.cpp` and the list of channels that a
redirection rebuilds are left out: they are made from what has been read.
-/

namespace CommonLib

open Fetch

/-! ## The protocol of `ap_type2s.hpp` -/

def msg_cmd_conn_resp2 : Nat := 2
def msg_cmd_ap_dev_conf2 : Nat := 5
def msg_cmd_ap_net_conf2 : Nat := 6
def msg_cmd_user_stat2 : Nat := 8
def msg_cmd_conn_heartbeat2 : Nat := 12
def acr_OK : Byte := 0
def acr_DENIED : Byte := 1
def acr_REDIRECT : Byte := 2
def aam_PASS : Byte := 0
def aam_NONE : Byte := 0
/-- `sizeof(user_stat2)`. -/
def userStatSize : Nat := 72

/-- The options which `conn_resp` sets. -/
structure THOtherOption where
  whitelist : List Byte
  blacklist : List Byte
  authServ : List Byte
  auditServ : List Byte
  shouldAuth : Bool
  shouldAudit : Bool
  apInterval : Nat
  userInterval : Nat
  auditInterval : Nat

namespace CommandHandler

/-! ## `proj_utils.cpp` -/

/-- A 16-bit field in network order. -/
def half (offset : Nat) : Fetch Byte Nat := do
  let high ← cell offset
  let low ← cell (offset + 1)
  return high.toNat * 256 + low.toNat

/-- `read_mac`. -/
def readMac (offset : Nat) : Fetch Byte (List Byte) := field offset 6

/-- `read_ip`: four bytes, or eight where the fifth is not zero. -/
def readIp (offset : Nat) : Fetch Byte (List Byte) := do
  let low ← field offset 4
  let fifth ← cell (offset + 4)
  let high ← field (offset + 4) (bif fifth == 0 then 0 else 4)
  return low ++ high

/-- `read_ipV4`. -/
def readIpV4 (offset : Nat) : Fetch Byte (List Byte) := field offset 4

/-! ## `driver.cpp`

Each function finds its structure at the cursor; `limit` ends the search for the end of a text.
-/

/-- `on_ap_lan_conf`. -/
def onApLanConf : Fetch Byte Unit := do
  let _dhcpMode ← cell 0
  let _leasetime ← field 4 4
  let gwIp ← cell 48
  onlyIf (gwIp != 0) (readIp 48)
  let mask ← cell 64
  onlyIf (mask != 0) (readIp 64)
  let gwMac ← cell 8
  onlyIf (gwMac != 0) (readMac 8)
  let dhcpStart ← cell 16
  onlyIf (dhcpStart != 0) do
    let dhcpEnd ← cell 32
    onlyIf (dhcpEnd != 0) do
      let _startIp ← readIp 16
      let _endIp ← readIp 32

/-- `on_ap_vlan_conf`. -/
def onApVlanConf : Fetch Byte Unit := do
  let _vlanIndex ← cell 0

/-- The `i`-th DNS server; `strlen( (char *)wan->wan_ip )` decides whether it is looked at. -/
def wanDnsServer (limit i : Nat) : Fetch Byte Unit := do
  let wanIp ← scan 0 limit 8
  onlyIf (wanIp.length == 4) do
    let dns ← cell (101 + i * 4)
    onlyIf (dns != 0) (readIpV4 (101 + i * 4))

/-- The loop over `dns_count`, which stands in three branches of `on_ap_wan_conf`. -/
def wanDns (limit : Nat) : Fetch Byte Unit := do
  let dnsMode ← cell 58
  onlyIf (dnsMode == 0) do
    let dnsCount ← cell 100
    rows (wanDnsServer limit) dnsCount.toNat

/-- `on_ap_wan_conf`.  The texts of the user and the password are copied by their lengths. -/
def onApWanConf (limit : Nat) : Fetch Byte Unit := do
  let wanIndex ← cell 0
  onlyIf (wanIndex &&& 0x80 == 0) do
    let wanMac ← cell 2
    onlyIf (wanMac != 0) (readMac 2)
    let _wanMtu ← field 60 2
    let _autoDns ← cell 57
    let connMode ← cell 56
    onlyIf (connMode == 1) do
      wanDns limit
      let usrLen ← cell 356
      let _usr ← field 357 usrLen.toNat
      let pswdLen ← cell 388
      let _pswd ← field 389 pswdLen.toNat
    onlyIf (connMode == 2) (wanDns limit)
    onlyIf (connMode == 3) do
      let wanIp ← cell 8
      onlyIf (wanIp == 0) (readIp 8)
      let wanGw ← cell 24
      onlyIf (wanGw == 0) (readIp 24)
      wanDns limit

/-- `on_ap_wlan_conf`. -/
def onApWlanConf (limit : Nat) : Fetch Byte Unit := do
  let _wlanIndex ← cell 256
  let wlanSsidLen ← cell 0
  let _wlanSsid ← field 1 wlanSsidLen.toNat
  let _wlanHidden ← cell 257
  let dhcpEnabled ← cell 268
  let _wlanEnabled ← cell 258
  let _wlanTxpower ← cell 262
  let _devType ← cell 266
  let sofeMode ← cell 269
  onlyIf (sofeMode == 3) (cell 261)
  -- `%s` of `secret_key`
  onlyIf (sofeMode == 2 || sofeMode == 3) (scan 0 limit 270)
  let _sessionLimit ← cell 265
  onlyIf (dhcpEnabled == 1) do
    let _dhcpStart ← readIp 290
    let _dhcpEnd ← readIp 306

/-- The body of the loop over `vlan_count`; the cursor is `tp`. -/
def vlanRound (i : Nat) : Fetch Byte Unit := do
  ahead (60 * i) onApVlanConf
  let nodeLen ← half (60 * i + 58)
  skip (nodeLen * 8)

/-- The body of the loop over `wlan_count`; the cursor is `tp + len`. -/
def wlanRound (limit i : Nat) : Fetch Byte Unit := do
  let whiteLen ← half (342 * i + 338)
  let blackLen ← half (342 * i + 340)
  ahead (342 * i) (onApWlanConf limit)
  skip (whiteLen + blackLen)

/-- `on_ap_runtime_conf`.  The cursor is `tp`; the counts stand before it and are all read first. -/
def onApRuntimeConf (limit : Nat) : Fetch Byte Unit := do
  let lanCount ← half 0
  let vlanCount ← half 2
  let wanCount ← half 4
  let wlanCount ← half 6
  skip 8
  rows (fun i => ahead (80 * i) onApLanConf) lanCount
  skip (80 * lanCount)
  rows vlanRound vlanCount
  skip (60 * vlanCount)
  rows (fun i => ahead (420 * i) (onApWanConf limit)) wanCount
  skip (420 * wanCount)
  rows (wlanRound limit) wlanCount

/-- `on_ap_dev_conf`; what follows the type is not looked at. -/
def onApDevConf : Fetch Byte Unit := do
  let _type ← field 0 2

/-! ## Handlers -/

/-- The context is closed and nothing answered. -/
def cut (context : THSockContext) : CmdResult where
  response := context.response
  logined := context.logined
  closes := true
  throws := false

/-- The request is only acknowledged. -/
def acknowledged (context : THSockContext) (abortGZIP : Bool) : CmdResult where
  response :=
    { context.response with
      autoAcknowledge := true, abortGZIP, responseCode := msg_cmd_unknown }
  logined := context.logined
  closes := false
  throws := false

/-- A text may end behind the body; the search is followed until it has left the body. -/
def textLimit (context : THSockContext) : Nat := context.request.contentLength + 1

/-- `cmd_conn_req::CommandHandler`. -/
def connResp (other : THOtherOption) (context : THSockContext) :
    Fetch Byte (THOtherOption × CmdResult) := do
  let result ← cell 0
  let whiteLen ← half 270
  -- the reason of a denial
  onlyIf (result == acr_DENIED) (field 274 whiteLen)
  let white ← field 274 whiteLen
  let blackLen ← half 272
  let black ← field (274 + whiteLen) blackLen
  let authMode ← cell 1
  let auditMode ← cell 2
  let apInterval ← half 8
  let userInterval ← half 10
  let auditInterval ← half 12
  let auditServ ← scan 0 (textLimit context) 78
  let authServ ← scan 0 (textLimit context) 14
  let other : THOtherOption :=
    { whitelist := if whiteLen > 0 then white else other.whitelist
      blacklist := if blackLen > 0 then black else other.blacklist
      authServ, auditServ, apInterval, userInterval, auditInterval
      shouldAuth := decide (authMode = aam_PASS)
      shouldAudit := decide (auditMode = aam_NONE) }
  let response :=
    { context.response with
      abortGZIP := false, responseCode := msg_cmd_unknown, autoAcknowledge := false }
  return (other, {
    response
    logined := context.logined || decide (result = acr_OK)
    closes := decide (result = acr_DENIED ∨ result = acr_REDIRECT)
    throws := false })

/-- `cmd_conn_req::DummyHandler`. -/
def heartbeat (context : THSockContext) : CmdResult :=
  let result := acknowledged context true
  { result with response := { result.response with responseStream := [] } }

/-- `cmd_ap_conf::CommandHandler`. -/
def apNetConf (context : THSockContext) : Fetch Byte CmdResult := do
  onlyIf context.logined (onApRuntimeConf (textLimit context))
  return if context.logined then acknowledged context false else cut context

/-- `cmd_ap_conf::DummyHandler`. -/
def apDevConf (context : THSockContext) : Fetch Byte CmdResult := do
  onlyIf context.logined onApDevConf
  return if context.logined then acknowledged context false else cut context

/-- `cmd_user_stat::CommandHandler`. -/
def userStat (context : THSockContext) : Fetch Byte CmdResult := do
  let served := decide (userStatSize ≤ context.request.contentLength) && context.logined
  onlyIf served do
    let _mac ← readMac 2
    let _sta ← cell 0
  return if served then acknowledged context false else cut context

/-- The handler of a command, if these modules register one. -/
def handler (other : THOtherOption) (context : THSockContext) (cmd : Nat) :
    Option (Fetch Byte (THOtherOption × CmdResult)) :=
  if cmd = msg_cmd_conn_resp2 then some (connResp other context)
  else if cmd = msg_cmd_conn_heartbeat2 then some (pure (other, heartbeat context))
  else if cmd = msg_cmd_ap_net_conf2 then some (do return (other, ← apNetConf context))
  else if cmd = msg_cmd_ap_dev_conf2 then some (do return (other, ← apDevConf context))
  else if cmd = msg_cmd_user_stat2 then some (do return (other, ← userStat context))
  else none

/-! ## Bodies in which the structures fit

`data` is what stands at `Request->Data` and `size` is the length of the body.
-/

section Fits

variable (data : Nat → Byte) (size : Nat)

/-- The 16-bit field at an offset. -/
abbrev halfAt (offset : Nat) : Nat := MsgHead2.word data offset

/-- The text at an offset ends in the body. -/
def TextEnds (start : Nat) : Prop := ∃ offset, start ≤ offset ∧ offset < size ∧ data offset = 0

/-- The bytes of an address of four or eight bytes up to the last that counts. -/
def ipExtent (ip : Nat) : Nat := if data (ip + 4) = 0 then 5 else 8

/-- The bytes of a `lan_entity` up to the last that counts; the mask stands last or is absent. -/
def lanExtent (lan : Nat) : Nat :=
  if data (lan + 64) = 0 then 65 else 64 + ipExtent data (lan + 64)

/-- The address of a `wan_entity2` is a text of four characters. -/
def ShortAddress (wan : Nat) : Prop :=
  data (wan + 12) = 0 ∧ ∀ index < 4, data (wan + 8 + index) ≠ 0

/-- The DNS servers of a `wan_entity2` fit, if they are set by hand; for each of them the length of
the address is asked for. -/
def DnsFits (wan : Nat) : Prop :=
  data (wan + 58) = 0 → wan + 101 ≤ size ∧
    ∀ i < (data (wan + 100)).toNat, TextEnds data size (wan + 8) ∧
      (ShortAddress data wan →
        wan + 101 + i * 4 + (if data (wan + 101 + i * 4) = 0 then 1 else 4) ≤ size)

/-- A `wan_entity2` fits: an index that asks for its removal, or the fields that its mode needs. -/
def WanFits (wan : Nat) : Prop :=
  wan + 1 ≤ size ∧
    (data wan &&& 0x80 = 0 → wan + 62 ≤ size ∧
      (data (wan + 56) = 1 ∨ data (wan + 56) = 2 ∨ data (wan + 56) = 3 → DnsFits data size wan) ∧
      (data (wan + 56) = 1 → wan + 389 + (data (wan + 388)).toNat ≤ size ∧
        wan + 357 + (data (wan + 356)).toNat ≤ size))

/-- A `wlan_entity2` fits, with its key if the mode has one. -/
def WlanFits (wlan : Nat) : Prop :=
  wlan + 342 ≤ size ∧
    (data (wlan + 269) = 2 ∨ data (wlan + 269) = 3 → TextEnds data size (wlan + 270))

/-- `tp` when the loop over the `vlan_entity`s comes to the `i`-th. -/
def vlanTp (start : Nat) : Nat → Nat
  | 0 => start
  | i + 1 => vlanTp start i + halfAt data (vlanTp start i + 60 * i + 58) * 8

/-- `tp + len` when the loop over the `wlan_entity2`s comes to the `i`-th. -/
def wlanTp (start : Nat) : Nat → Nat
  | 0 => start
  | i + 1 => wlanTp start i +
      (halfAt data (wlanTp start i + 342 * i + 338) + halfAt data (wlanTp start i + 342 * i + 340))

/-- The four counts of an `ap_net_conf2` and the structures they announce fit. -/
def NetConfFits : Prop :=
  let vlans := 8 + 80 * halfAt data 0
  let wans := vlanTp data vlans (halfAt data 2) + 60 * halfAt data 2
  let wlans := wans + 420 * halfAt data 4
  8 ≤ size ∧
    (∀ i < halfAt data 0, 8 + 80 * i + lanExtent data (8 + 80 * i) ≤ size) ∧
    (∀ i < halfAt data 2, vlanTp data vlans i + 60 * i + 60 ≤ size) ∧
    (∀ i < halfAt data 4, WanFits data size (wans + 420 * i)) ∧
    ∀ i < halfAt data 6, WlanFits data size (wlanTp data wlans i + 342 * i)

/-- An `ap_conn_resp2` fits with both its lists, and its last server name ends in the body. -/
def ConnRespFits : Prop :=
  274 + halfAt data 270 + halfAt data 272 ≤ size ∧ TextEnds data size 78

/-- The structure that a command finds in its body fits, as far as its handler looks at it. -/
def Fits (cmd : Nat) (logined : Bool) : Prop :=
  (cmd = msg_cmd_conn_resp2 → ConnRespFits data size) ∧
    (cmd = msg_cmd_ap_net_conf2 ∧ logined = true → NetConfFits data size) ∧
    (cmd = msg_cmd_ap_dev_conf2 ∧ logined = true → 2 ≤ size)

end Fits

/-! ## Reads of the structures -/

section Structures

variable {memory : Nat → Byte} {bound ptr : Nat}

@[simp] theorem value_half (offset : Nat) :
    (half offset memory ptr).value = halfAt memory (ptr + offset) := rfl

@[simp] theorem ptr_half (offset : Nat) : (half offset memory ptr).ptr = ptr := rfl

@[simp] theorem within_half (offset : Nat) :
    (half offset).Within memory bound ptr ↔ ptr + offset + 2 ≤ bound := by
  rw [half, within_bind, within_map, within_cell, within_cell, ptr_cell]
  omega

@[simp] theorem ptr_readMac (offset : Nat) : (readMac offset memory ptr).ptr = ptr := rfl

@[simp] theorem within_readMac (offset : Nat) :
    (readMac offset).Within memory bound ptr ↔ ptr + offset + 6 ≤ bound := by
  rw [readMac, within_field, or_iff_right (by decide)]

@[simp] theorem ptr_readIp (offset : Nat) : (readIp offset memory ptr).ptr = ptr := by
  rfl

theorem ipExtent_le (data : Nat → Byte) (ip : Nat) : ipExtent data ip ≤ 8 := by
  rw [ipExtent]
  split <;> decide

@[simp] theorem within_readIp (offset : Nat) :
    (readIp offset).Within memory bound ptr ↔
      ptr + offset + ipExtent memory (ptr + offset) ≤ bound := by
  simp only [readIp, within_bind, within_field, within_cell, within_pure, and_true, ptr_field,
    ptr_cell, value_cell, ipExtent, Nat.add_assoc]
  rcases eq_or_ne (memory (ptr + (offset + 4))) 0 with zero | nonzero
  · rw [if_pos zero, zero, beq_self_eq_true, cond_true]
    omega
  · rw [if_neg nonzero, beq_false_of_ne nonzero, cond_false]
    omega

theorem within_onApLanConf :
    onApLanConf.Within memory bound ptr ↔ ptr + lanExtent memory ptr ≤ bound := by
  have gwIp := ipExtent_le memory (ptr + 48)
  have dhcpStart := ipExtent_le memory (ptr + 16)
  have dhcpEnd := ipExtent_le memory (ptr + 32)
  simp only [onApLanConf, within_bind, within_field, within_cell, within_onlyIf, within_readIp,
    within_readMac, within_pure, and_true, ptr_field, ptr_cell, ptr_readIp, ptr_onlyIf,
    value_cell, lanExtent, bne_iff_ne]
  rcases eq_or_ne (memory (ptr + 64)) 0 with none | some
  · rw [if_pos none]
    constructor
    · rintro ⟨-, -, -, -, mask, -⟩
      exact mask
    · intro fits
      refine ⟨?_, ?_, ?_, ?_, ?_, fun some => absurd none some, ?_, ?_, ?_, ?_⟩ <;> omega
  · rw [if_neg some]
    have least : 5 ≤ ipExtent memory (ptr + 64) := by
      rw [ipExtent]
      split <;> decide
    constructor
    · rintro ⟨-, -, -, -, -, mask, -⟩
      rw [← Nat.add_assoc]
      exact mask some
    · intro fits
      refine ⟨?_, ?_, ?_, ?_, ?_, fun _ => ?_, ?_, ?_, ?_, ?_⟩ <;> omega

@[simp] theorem ptr_onApVlanConf : (onApVlanConf memory ptr).ptr = ptr := rfl

theorem within_onApVlanConf : onApVlanConf.Within memory bound ptr ↔ ptr + 1 ≤ bound := by
  rw [onApVlanConf, within_bind, and_iff_left (within_pure _), within_cell]
  exact Iff.rfl

theorem within_wanDnsServer {limit : Nat} (room : bound < limit) (fields : ptr + 13 ≤ bound)
    (i : Nat) : (wanDnsServer limit i).Within memory bound ptr ↔
      TextEnds memory bound (ptr + 8) ∧ (ShortAddress memory ptr →
        ptr + 101 + i * 4 + (if memory (ptr + 101 + i * 4) = 0 then 1 else 4) ≤ bound) := by
  have short : (scan 0 limit 8 memory ptr).value.length = 4 ↔ ShortAddress memory ptr :=
    value_scan_length_eq (by omega)
  simp only [wanDnsServer, within_bind, within_scan room, within_onlyIf, within_cell, ptr_scan,
    ptr_cell, value_cell, beq_iff_eq, bne_iff_ne, readIpV4, within_field, short, TextEnds,
    Nat.add_assoc]
  apply and_congr_right'
  apply imp_congr_right
  intro _
  rcases eq_or_ne (memory (ptr + (101 + i * 4))) 0 with zero | nonzero
  · rw [if_pos zero, and_iff_left (absurd zero)]
    omega
  · rw [if_neg nonzero, forall_prop_of_true nonzero]
    omega

theorem within_wanDns {limit : Nat} (room : bound < limit) (fields : ptr + 62 ≤ bound) :
    (wanDns limit).Within memory bound ptr ↔ DnsFits memory bound ptr := by
  have stays (i : Nat) : (wanDnsServer limit i memory ptr).ptr = ptr := by
    rw [wanDnsServer, ptr_bind, ptr_onlyIf, ptr_scan]
  simp only [wanDns, within_bind, within_cell, within_onlyIf, within_rows_of_stays stays, ptr_cell,
    value_cell, beq_iff_eq, DnsFits, within_wanDnsServer room (by omega : ptr + 13 ≤ bound)]
  rw [and_iff_right (by omega)]
  rfl

@[simp] theorem ptr_wanDns (limit : Nat) : (wanDns limit memory ptr).ptr = ptr := by
  rw [wanDns, ptr_bind, ptr_onlyIf, ptr_cell]

theorem within_onApWanConf {limit : Nat} (room : bound < limit) :
    (onApWanConf limit).Within memory bound ptr ↔ WanFits memory bound ptr := by
  have wanIp := ipExtent_le memory (ptr + 8)
  have wanGw := ipExtent_le memory (ptr + 24)
  simp only [onApWanConf, within_bind, within_cell, within_onlyIf, within_readIp, within_readMac,
    within_field, within_pure, and_true, ptr_cell, ptr_onlyIf, ptr_field, ptr_wanDns, value_cell,
    beq_iff_eq, bne_iff_ne, WanFits]
  apply and_congr Iff.rfl
  apply imp_congr_right
  intro _
  constructor
  · rintro ⟨-, -, wanMtu, -, -, pppoe, dhcp, static⟩
    have fields : ptr + 62 ≤ bound := by omega
    rw [within_wanDns room fields] at pppoe dhcp static
    refine ⟨fields, ?_, ?_⟩
    · rintro (one | two | three)
      · exact (pppoe one).1
      · exact dhcp two
      · exact (static three).2.2.2.2
    · intro one
      obtain ⟨-, usrLen, usr, pswdLen, pswd⟩ := pppoe one
      omega
  · rintro ⟨fields, dns, texts⟩
    rw [within_wanDns room fields]
    refine ⟨by omega, by omega, by omega, by omega, by omega, fun one => ?_, fun two => ?_,
      fun three => ?_⟩
    · have := texts one
      exact ⟨dns (.inl one), by omega, by omega, by omega, by omega⟩
    · exact dns (.inr (.inl two))
    · exact ⟨by omega, by omega, by omega, by omega, dns (.inr (.inr three))⟩

theorem within_onApWlanConf {limit : Nat} (room : bound < limit) (lengths : ptr + 342 ≤ bound) :
    (onApWlanConf limit).Within memory bound ptr ↔
      (memory (ptr + 269) = 2 ∨ memory (ptr + 269) = 3 → TextEnds memory bound (ptr + 270)) := by
  have dhcpStart := ipExtent_le memory (ptr + 290)
  have dhcpEnd := ipExtent_le memory (ptr + 306)
  have ssid := (memory (ptr + 0)).toNat_lt
  simp only [onApWlanConf, within_bind, within_cell, within_onlyIf, within_readIp, within_field,
    within_pure, and_true, within_scan room, ptr_cell, ptr_onlyIf, ptr_field, ptr_readIp,
    value_cell, beq_iff_eq, Bool.or_eq_true, TextEnds]
  constructor
  · rintro ⟨-, -, -, -, -, -, -, -, -, -, key, -⟩
    exact key
  · intro key
    refine ⟨?_, ?_, ?_, ?_, ?_, ?_, ?_, ?_, ?_, ?_, key, ?_, ?_⟩ <;> omega

theorem ptr_vlanRounds (start count : Nat) :
    (rows vlanRound count memory start).ptr = vlanTp memory start count := by
  induction count with
  | zero => rfl
  | succ count induction =>
      rw [rows, ptr_bind, induction, vlanTp, Nat.add_assoc _ (60 * count)]
      rfl

theorem within_vlanRound (i : Nat) :
    (vlanRound i).Within memory bound ptr ↔ ptr + 60 * i + 60 ≤ bound := by
  rw [vlanRound, within_bind, within_bind, within_ahead, within_onApVlanConf, within_half,
    ptr_ahead, and_iff_left (within_skip _)]
  omega

theorem ptr_wlanRounds (limit start count : Nat) :
    (rows (wlanRound limit) count memory start).ptr = wlanTp memory start count := by
  induction count with
  | zero => rfl
  | succ count induction =>
      rw [rows, ptr_bind, induction, wlanTp, Nat.add_assoc _ (342 * count),
        Nat.add_assoc _ (342 * count)]
      rfl

theorem within_wlanRound {limit : Nat} (room : bound < limit) (i : Nat) :
    (wlanRound limit i).Within memory bound ptr ↔ WlanFits memory bound (ptr + 342 * i) := by
  simp only [wlanRound, within_bind, within_half, within_ahead, within_skip, and_true, ptr_half,
    WlanFits, ← Nat.add_assoc]
  constructor
  · rintro ⟨-, lengths, texts⟩
    have fields : ptr + 342 * i + 342 ≤ bound := by omega
    exact ⟨fields, (within_onApWlanConf room fields).mp texts⟩
  · rintro ⟨fields, texts⟩
    exact ⟨by omega, by omega, (within_onApWlanConf room fields).mpr texts⟩

theorem within_onApRuntimeConf {limit : Nat} (room : bound < limit) :
    (onApRuntimeConf limit).Within memory bound 0 ↔ NetConfFits memory bound := by
  simp only [onApRuntimeConf, within_bind, within_half, within_skip, within_ahead, within_rows,
    within_onApLanConf, within_vlanRound, within_onApWanConf room, within_wlanRound room, true_and,
    ptr_half, ptr_skip, ptr_rows_ahead, ptr_vlanRounds, ptr_wlanRounds, value_half, NetConfFits,
    Nat.zero_add]
  constructor
  · rintro ⟨-, -, -, counts, structures⟩
    exact ⟨counts, structures⟩
  · rintro ⟨counts, structures⟩
    exact ⟨by omega, by omega, by omega, counts, structures⟩

/-! ## Reads of the handlers -/

theorem within_connResp (other : THOtherOption) (context : THSockContext) :
    (connResp other context).Within memory context.request.contentLength 0 ↔
      ConnRespFits memory context.request.contentLength := by
  have room : context.request.contentLength < textLimit context := Nat.lt_succ_self _
  simp only [connResp, within_bind, within_half, within_cell, within_field, within_onlyIf,
    within_scan room, within_pure, and_true, ptr_half, ptr_cell, ptr_field, ptr_onlyIf, ptr_scan,
    value_half, value_cell, ConnRespFits, TextEnds, Nat.zero_add]
  constructor
  · rintro ⟨-, -, -, white, blackLen, black, -, -, -, -, -, auditServ, -⟩
    exact ⟨by omega, auditServ⟩
  · rintro ⟨lists, offset, behind, below, zero⟩
    have whiteList : 274 + halfAt memory 270 ≤ context.request.contentLength := by omega
    refine ⟨?_, ?_, fun _ => .inr whiteList, .inr whiteList, ?_, .inr lists, ?_, ?_, ?_, ?_, ?_,
      ⟨offset, behind, below, zero⟩, ⟨offset, ?_, below, zero⟩⟩ <;> omega

theorem within_apNetConf (context : THSockContext) :
    (apNetConf context).Within memory context.request.contentLength 0 ↔
      (context.logined = true → NetConfFits memory context.request.contentLength) := by
  have room : context.request.contentLength < textLimit context := Nat.lt_succ_self _
  rw [apNetConf, within_bind, and_iff_left (within_pure _), within_onlyIf,
    within_onApRuntimeConf room]

theorem within_apDevConf (context : THSockContext) :
    (apDevConf context).Within memory context.request.contentLength 0 ↔
      (context.logined = true → 2 ≤ context.request.contentLength) := by
  rw [apDevConf, within_bind, and_iff_left (within_pure _), within_onlyIf, onApDevConf, within_bind,
    and_iff_left (within_pure _), within_field, or_iff_right (by decide), Nat.zero_add]

/-- `user_stat` looks at the length of the body first. -/
theorem within_userStat (context : THSockContext) :
    (userStat context).Within memory context.request.contentLength 0 := by
  rw [userStat, within_bind, and_iff_left (within_pure _), within_onlyIf]
  intro served
  obtain ⟨long, -⟩ := Bool.and_eq_true_iff.mp served
  have size_le : 72 ≤ context.request.contentLength := of_decide_eq_true long
  simp only [within_bind, within_readMac, within_cell, within_pure, and_true, ptr_readMac]
  omega

/-- A handler stays inside a body exactly when the structure of its command fits. -/
theorem within_handler {other : THOtherOption} {context : THSockContext} {cmd : Nat}
    {reads : Fetch Byte (THOtherOption × CmdResult)}
    (registered : handler other context cmd = some reads) :
    reads.Within memory context.request.contentLength 0 ↔
      Fits memory context.request.contentLength cmd context.logined := by
  rw [handler] at registered
  split at registered
  · rename_i is
    obtain rfl := Option.some.inj registered
    rw [within_connResp]
    simp [Fits, is, msg_cmd_conn_resp2, msg_cmd_ap_net_conf2, msg_cmd_ap_dev_conf2]
  split at registered
  · rename_i is
    obtain rfl := Option.some.inj registered
    rw [iff_true_left (within_pure _)]
    simp [Fits, is, msg_cmd_conn_resp2, msg_cmd_conn_heartbeat2, msg_cmd_ap_net_conf2,
      msg_cmd_ap_dev_conf2]
  split at registered
  · rename_i is
    obtain rfl := Option.some.inj registered
    rw [within_map, within_apNetConf]
    simp [Fits, is, msg_cmd_conn_resp2, msg_cmd_ap_net_conf2, msg_cmd_ap_dev_conf2]
  split at registered
  · rename_i is
    obtain rfl := Option.some.inj registered
    rw [within_map, within_apDevConf]
    simp [Fits, is, msg_cmd_conn_resp2, msg_cmd_ap_net_conf2, msg_cmd_ap_dev_conf2]
  split at registered
  · rename_i is
    obtain rfl := Option.some.inj registered
    rw [within_map, iff_true_left (within_userStat context)]
    simp [Fits, is, msg_cmd_conn_resp2, msg_cmd_ap_net_conf2, msg_cmd_ap_dev_conf2,
      msg_cmd_user_stat2]
  · cases registered

end Structures

end CommandHandler

/-! ## Frames -/

/-- The array which `Request->Data` refers to. -/
def THRequest.dataArray (request : THRequest) : Nat → Byte :=
  match request.data with
  | .body => request.body
  | .content => request.content

theorem THRequest.dataBytes_eq (request : THRequest) :
    request.dataBytes = cells request.dataArray 0 request.contentLength := by
  rw [dataBytes, dataArray]
  cases request.data <;> rfl

namespace TeWiFiClient

variable (client : TeWiFiClient)

/-- The body of a frame whose bytes have been copied, expanded if that is asked for and succeeds. -/
def frameBody (request : THRequest) : List Byte :=
  if MsgHead2.len request.head = 0 then []
  else
    let bytes := cells request.body 0 request.formLength
    if MsgHead2.flag request.head &&& mhf_GZIP ≠ 0 then
      let (output, ok) := client.gzDecompress bytes
      if ok then output else bytes
    else bytes

/-- A frame that passes the checks leaves its own body behind `Data`, and nothing of it if it is
empty. -/
theorem dataBytes_of_passed {received checked passed : THRequest}
    (headPassed : onCheckPacketHead received = (true, checked))
    (bodyPassed : client.onCheckPacketBody (checked.loadBody H_HEAD_LEN2) = (true, passed)) :
    passed.dataBytes = client.frameBody (checked.loadBody H_HEAD_LEN2) := by
  have formLength_eq : checked.formLength = MsgHead2.len checked.head := by
    rw [onCheckPacketHead] at headPassed
    split at headPassed
    · split at headPassed
      · dsimp only at headPassed
        split at headPassed
        · cases headPassed
          rfl
        · cases headPassed
      · cases headPassed
    · cases headPassed
  rcases eq_or_ne (MsgHead2.len checked.head) 0 with empty | nonempty
  · have loaded_eq : checked.loadBody H_HEAD_LEN2 = { checked with contentLength := 0 } := by
      rw [THRequest.loadBody, if_pos (by omega)]
    rw [loaded_eq, onCheckPacketBody, if_pos empty] at bodyPassed
    rw [loaded_eq, frameBody, if_pos empty]
    cases bodyPassed
    rw [THRequest.dataBytes_eq]
    rfl
  · have head_eq : (checked.loadBody H_HEAD_LEN2).head = checked.head := by
      rw [THRequest.loadBody, if_neg (by omega)]
    rw [onCheckPacketBody, head_eq, if_neg nonempty] at bodyPassed
    rw [frameBody, head_eq, if_neg nonempty]
    generalize checked.loadBody H_HEAD_LEN2 = loaded at bodyPassed ⊢
    dsimp only at bodyPassed ⊢
    split at bodyPassed
    · cases bodyPassed
    split at bodyPassed
    · rename_i zipped
      rw [if_pos zipped]
      split at bodyPassed
      · rename_i ok
        rw [if_pos ok]
        cases bodyPassed
        exact cells_move _ _ 0
      · rename_i failed
        rw [if_neg failed]
        cases bodyPassed
        rfl
    · rename_i plain
      rw [if_neg plain]
      cases bodyPassed
      rfl

/-- A head that has been checked passes again. -/
theorem onCheckPacketHead_of_checked {request : THRequest}
    (logo_eq : MsgHead2.logo request.head = H_PROTO_LOGO)
    (ver_le : MsgHead2.ver request.head ≤ H_PROTO_NEO_VER)
    (len_le : MsgHead2.len request.head ≤ H_PROTO_MAX_LEN)
    (formLength_eq : request.formLength = MsgHead2.len request.head)
    (packetLength_eq : request.packetLength = MsgHead2.len request.head + H_HEAD_LEN2) :
    onCheckPacketHead request = (true, request) := by
  rw [onCheckPacketHead, if_pos logo_eq, if_pos ver_le]
  dsimp only
  rw [if_pos len_le, ← packetLength_eq, ← formLength_eq]

/-- Without a body there is nothing to check. -/
theorem onCheckPacketBody_of_empty {request : THRequest} (empty : MsgHead2.len request.head = 0)
    (formLength_eq : request.formLength = 0) (contentLength_eq : request.contentLength = 0) :
    client.onCheckPacketBody (request.loadBody H_HEAD_LEN2) = (true, request) := by
  rw [THRequest.loadBody, if_pos (by omega), onCheckPacketBody, if_pos empty, ← contentLength_eq]

/-- The handler of a frame that passes the checks reads inside its body exactly when the structure
of the command fits in it. -/
theorem handler_inside_iff {received checked : THRequest} {context : THSockContext}
    (headPassed : onCheckPacketHead received = (true, checked))
    (bodyPassed : client.onCheckPacketBody (checked.loadBody H_HEAD_LEN2) =
      (true, context.request))
    {other : THOtherOption} {reads : Fetch Byte (THOtherOption × CmdResult)}
    (registered : CommandHandler.handler other context (MsgHead2.cmd context.request.head) =
      some reads) :
    context.request.dataBytes = client.frameBody (checked.loadBody H_HEAD_LEN2) ∧
      ((∀ offset ∈ (reads context.request.dataArray 0).reads,
          offset < context.request.contentLength) ↔
        CommandHandler.Fits context.request.dataArray context.request.contentLength
          (MsgHead2.cmd context.request.head) context.logined) :=
  ⟨client.dataBytes_of_passed headPassed bodyPassed, CommandHandler.within_handler registered⟩

/-- A client that expands nothing. -/
def plainClient : TeWiFiClient where
  responders _ := none
  serverCount := 1
  gzDecompress _ := ([], false)
  gzCompress _ := ([], false)

/-- A new context that has received the head of a `conn_resp2` without a body. -/
def emptyContext : THSockContext :=
  let context := newContext (move [115, 119, 2, 0, 0, 2] (fun _ => 0) 0) (fun _ => 0) (fun _ => 0)
    fun _ => 0
  { context with request := { context.request with formLength := 0, packetLength := 16 } }

def noOptions : THOtherOption where
  whitelist := []
  blacklist := []
  authServ := []
  auditServ := []
  shouldAuth := false
  shouldAudit := false
  apInterval := 60
  userInterval := 60
  auditInterval := 60

theorem emptyContext_head :
    onCheckPacketHead emptyContext.request = (true, emptyContext.request) :=
  onCheckPacketHead_of_checked (by rfl) (by decide) (by decide) (by rfl) (by rfl)

theorem emptyContext_body : plainClient.onCheckPacketBody
    (emptyContext.request.loadBody H_HEAD_LEN2) = (true, emptyContext.request) :=
  plainClient.onCheckPacketBody_of_empty (by rfl) (by rfl) (by rfl)

theorem emptyContext_registered : CommandHandler.handler noOptions emptyContext
    (MsgHead2.cmd emptyContext.request.head) =
      some (CommandHandler.connResp noOptions emptyContext) := by
  have cmd_eq : MsgHead2.cmd emptyContext.request.head = msg_cmd_conn_resp2 := by rfl
  rw [CommandHandler.handler, if_pos cmd_eq]

theorem emptyContext_handler_inside_iff :
    emptyContext.request.dataBytes =
        plainClient.frameBody (emptyContext.request.loadBody H_HEAD_LEN2) ∧
      ((∀ offset ∈ (CommandHandler.connResp noOptions emptyContext
          emptyContext.request.dataArray 0).reads,
          offset < emptyContext.request.contentLength) ↔
        CommandHandler.Fits emptyContext.request.dataArray emptyContext.request.contentLength
          (MsgHead2.cmd emptyContext.request.head) emptyContext.logined) :=
  plainClient.handler_inside_iff emptyContext_head emptyContext_body emptyContext_registered

theorem emptyContext_reads_outside :
    ¬ ∀ (client : TeWiFiClient) (received checked : THRequest) (context : THSockContext)
      (other : THOtherOption) (reads : Fetch Byte (THOtherOption × CmdResult)),
      onCheckPacketHead received = (true, checked) →
      client.onCheckPacketBody (checked.loadBody H_HEAD_LEN2) = (true, context.request) →
      CommandHandler.handler other context (MsgHead2.cmd context.request.head) = some reads →
      ∀ offset ∈ (reads context.request.dataArray 0).reads,
        offset < context.request.contentLength := by
  intro inside
  have read : 0 ∈ (CommandHandler.connResp noOptions emptyContext
      emptyContext.request.dataArray 0).reads :=
    List.mem_append_left _ (List.mem_singleton.mpr rfl)
  have first := inside plainClient _ _ emptyContext noOptions _ emptyContext_head
    emptyContext_body emptyContext_registered 0 read
  exact Nat.not_lt_zero 0 first

end TeWiFiClient
end CommonLib
