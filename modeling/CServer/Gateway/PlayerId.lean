import CServer.World.Dispatch

/-! # Player ids in the headers of the links between gateway, world and backends

A `struct translate_header` carries the 64-bit id of a player in two fields of 32 bits: `playerid`, which is
declared wider but holds what `htonl` leaves of the id, and `serverid`. Five functions write such a header,
each with code of its own.
-/
namespace CServer.Gateway
open CServer.Lib CServer.Framework CServer.World List

/-! ## `package.h` -/

/-- `TRANSFORM_PLAYERID`: the server of a player id, or the number of the player on it. -/
def transformPlayerid (value : ℕ) (server : Bool) : ℕ :=
  if server then value / 2 ^ 32 % 2 ^ 32 else value % 2 ^ 32

/-- `TRANSFORM_PLAYERID_TO_64`, which writes the two halves of a `long long` one after the other. -/
def transformPlayeridTo64 (sid pid : ℕ) : ℕ := sid % 2 ^ 32 * 2 ^ 32 + pid % 2 ^ 32

def ntohlPidAndSid (pid serverid : ℕ) : ℕ :=
  if 0 < pid then
    if transformPlayerid pid true = 0 then transformPlayeridTo64 serverid pid else pid
  else pid

/-- The four bytes of an `unsigned int` in network order. -/
def htonl (n : ℕ) : List UInt8 :=
  [UInt8.ofNat (n / 2 ^ 24), UInt8.ofNat (n / 2 ^ 16), UInt8.ofNat (n / 2 ^ 8), UInt8.ofNat n]

/-- A header in memory. The upper half of `playerid` is zero: it is assigned what `htonl` returns. -/
def headerBytes (h : TranslateHeader) (sn : ℕ) : List UInt8 :=
  htonl h.len ++ htonl sn ++ htonl h.playerid ++ htonl 0 ++ htonl h.flag ++ htonl h.cmd ++ htonl h.serverid

theorem htonl_length (n : ℕ) : (htonl n).length = 4 := rfl

theorem ntohl_htonl (before after : List UInt8) (n off : ℕ) (h : before.length = off) :
    ntohl (before ++ htonl n ++ after) off = n % 2 ^ 32 := by
  unfold ntohl
  rw [append_assoc, ← h, drop_left, take_left' (htonl_length n)]
  simp only [htonl, foldl_cons, foldl_nil, UInt8.toNat_ofNat']
  omega

theorem translateHeader_bytes (h : TranslateHeader) (sn : ℕ) (msg : List UInt8) :
    translateHeader (headerBytes h sn ++ msg) =
      ⟨h.len % 2 ^ 32, h.playerid % 2 ^ 32, h.flag % 2 ^ 32, h.cmd % 2 ^ 32, h.serverid % 2 ^ 32⟩ := by
  unfold translateHeader headerBytes
  simp only [append_assoc]
  congr 1
  · exact ntohl_htonl [] _ h.len 0 rfl
  · simpa only [append_assoc] using ntohl_htonl (htonl h.len ++ htonl sn) _ h.playerid 8 rfl
  · simpa only [append_assoc] using
      ntohl_htonl (htonl h.len ++ htonl sn ++ htonl h.playerid ++ htonl 0) _ h.flag 16 rfl
  · simpa only [append_assoc] using
      ntohl_htonl (htonl h.len ++ htonl sn ++ htonl h.playerid ++ htonl 0 ++ htonl h.flag) _ h.cmd 20 rfl
  · simpa only [append_assoc] using
      ntohl_htonl (htonl h.len ++ htonl sn ++ htonl h.playerid ++ htonl 0 ++ htonl h.flag ++ htonl h.cmd) _
        h.serverid 24 rfl

/-! ## Senders -/

def cLogoutRespond : ℕ := 4

/-- `world_send_message` of the gateway. `sn` is left as it was on the stack. -/
def worldSendMessage (valid : Bool) (sn playerid cmd flag : ℕ) (msg : List UInt8) : Option (List UInt8) :=
  if valid then
    let sid := transformPlayerid playerid true
    some (headerBytes ⟨headerSize + msg.length, playerid, flag, cmd, sid⟩ sn ++ msg)
  else none

/-- `backend_send`, and what `backend_broadcast` sends to each backend. -/
def backendSend (sn channel cmd flag : ℕ) (msg : List UInt8) : List UInt8 :=
  let sid := transformPlayerid channel true
  headerBytes ⟨headerSize + msg.length, channel, flag, cmd, sid⟩ sn ++ msg

def sendMessage (playerid cmd flag : ℕ) (data : List UInt8) : List UInt8 :=
  let serverid := transformPlayerid playerid true
  headerBytes ⟨headerSize + data.length, playerid, flag, cmd, serverid⟩ 0 ++ data

def sendAmfMessage (playerid cmd : ℕ) (v : Option AmfValue) : List UInt8 :=
  sendMessage playerid cmd 1 (wire v)

def logoutRespond (reason : UInt32) : List UInt8 :=
  wire (some (.array [some (.integer 0), some (.integer 0), some (.integer reason)]))

/-- `Kick`: the buffer is zeroed and `serverid` is not assigned. -/
def kick (pid : ℕ) (reason : UInt32) : List UInt8 :=
  let msg := logoutRespond reason
  headerBytes ⟨headerSize + msg.length, pid, 1, cLogoutRespond, 0⟩ 0 ++ msg

def kickPlayer (playerid : ℕ) (reason : UInt32) : List UInt8 :=
  let msg := logoutRespond reason
  headerBytes ⟨headerSize + msg.length, playerid, 1, cLogoutRespond, 0⟩ 0 ++ msg

inductive Sender
  | worldSendMessage (sn cmd flag : ℕ) (msg : List UInt8)
  | backendSend (sn cmd flag : ℕ) (msg : List UInt8)
  | sendAmfMessage (cmd : ℕ) (v : Option AmfValue)
  | kick (reason : UInt32)
  | kickPlayer (reason : UInt32)

def Sender.bytes (s : Sender) (pid : ℕ) : Option (List UInt8) :=
  match s with
  | .worldSendMessage sn cmd flag msg => Gateway.worldSendMessage true sn pid cmd flag msg
  | .backendSend sn cmd flag msg => some (Gateway.backendSend sn pid cmd flag msg)
  | .sendAmfMessage cmd v => some (Gateway.sendAmfMessage pid cmd v)
  | .kick reason => some (Gateway.kick pid reason)
  | .kickPlayer reason => some (Gateway.kickPlayer pid reason)

/-! ## Receivers -/

/-- `process_message` of the world, and the gateway: `process_message` and `translate_to_client` of a world link,
`on_message` of a backend link. -/
inductive Receiver
  | world
  | gateway
  deriving DecidableEq

/-- The player id a receiver reconstructs; the world drops a frame without a server. -/
def Receiver.playerid (r : Receiver) (link : List UInt8) : Option ℕ :=
  let h := translateHeader link
  match r with
  | .world =>
    if h.serverid = 0 ∧ h.playerid ≠ 0 then none
    else if 0 < h.playerid then some (ntohlPidAndSid h.playerid h.serverid) else some h.playerid
  | .gateway => some (ntohlPidAndSid h.playerid h.serverid)

theorem pid_eq_ntohlPidAndSid {h : TranslateHeader} (hp : h.playerid < 2 ^ 32) (hs : h.serverid < 2 ^ 32) :
    h.pid = ntohlPidAndSid h.playerid h.serverid := by
  unfold TranslateHeader.pid ntohlPidAndSid transformPlayerid transformPlayeridTo64
  rw [if_pos (rfl : true = true)]
  by_cases h0 : 0 < h.playerid
  · have hq : h.playerid / 2 ^ 32 % 2 ^ 32 = 0 := by omega
    rw [if_pos h0, if_pos h0, if_pos hq, Nat.mod_eq_of_lt hs, Nat.mod_eq_of_lt hp]
  · rw [if_neg h0, if_neg h0]
    omega

theorem received_header (r : Receiver) {pid sid : ℕ} (len flag cmd sn : ℕ) (msg : List UInt8)
    (hlow : transformPlayerid pid false ≠ 0) (hsid : sid < 2 ^ 32) :
    r.playerid (headerBytes ⟨len, pid, flag, cmd, sid⟩ sn ++ msg) =
      if sid = 0 ∧ r = .world then none else some (sid * 2 ^ 32 + transformPlayerid pid false) := by
  have hlow' : 0 < pid % 2 ^ 32 := Nat.pos_of_ne_zero hlow
  have hid : ntohlPidAndSid (pid % 2 ^ 32) sid = sid * 2 ^ 32 + pid % 2 ^ 32 := by
    unfold ntohlPidAndSid transformPlayerid transformPlayeridTo64
    have hq : pid % 2 ^ 32 / 2 ^ 32 % 2 ^ 32 = 0 := by omega
    rw [if_pos hlow', if_pos (rfl : true = true), if_pos hq, Nat.mod_eq_of_lt hsid, Nat.mod_mod]
  unfold Receiver.playerid
  rw [translateHeader_bytes]
  simp only [Nat.mod_eq_of_lt hsid, hid]
  cases r with
  | world =>
    by_cases h0 : sid = 0
    · rw [if_pos ⟨h0, Nat.ne_of_gt hlow'⟩, if_pos ⟨h0, rfl⟩]
    · have hw : ¬ (sid = 0 ∧ pid % 2 ^ 32 ≠ 0) := fun h => h0 h.1
      have hr : ¬ (sid = 0 ∧ Receiver.world = .world) := fun h => h0 h.1
      rw [if_neg hw, if_pos hlow', if_neg hr]
      rfl
  | gateway =>
    have hr : ¬ (sid = 0 ∧ Receiver.gateway = .world) := fun h => Receiver.noConfusion h.2
    rw [if_neg hr]
    rfl

theorem playerid_halves {pid : ℕ} (h : pid < 2 ^ 64) :
    transformPlayerid pid true * 2 ^ 32 + transformPlayerid pid false = pid := by
  unfold transformPlayerid
  rw [if_pos rfl, if_neg Bool.false_ne_true]
  omega

theorem transformPlayerid_lt (pid : ℕ) (server : Bool) : transformPlayerid pid server < 2 ^ 32 := by
  unfold transformPlayerid
  split
  · omega
  · omega

def Sender.WritesServerid : Sender → Prop
  | .kick _ => False
  | .kickPlayer _ => False
  | _ => True

section Received
variable (r : Receiver) {pid : ℕ} (hpid : pid < 2 ^ 64) (hlow : transformPlayerid pid false ≠ 0)
  (hhigh : transformPlayerid pid true ≠ 0) (len flag cmd sn : ℕ) (msg : List UInt8)
include hpid hlow hhigh

theorem received_with_server :
    r.playerid (headerBytes ⟨len, pid, flag, cmd, transformPlayerid pid true⟩ sn ++ msg) = some pid := by
  rw [received_header r len flag cmd sn msg hlow (transformPlayerid_lt pid true), if_neg (fun h => hhigh h.1),
    playerid_halves hpid]

theorem received_without_server :
    r.playerid (headerBytes ⟨len, pid, flag, cmd, 0⟩ sn ++ msg) ≠ some pid := by
  rw [received_header r len flag cmd sn msg hlow (by decide)]
  have hlt : 0 * 2 ^ 32 + transformPlayerid pid false ≠ pid := by
    have := playerid_halves hpid
    omega
  split
  · intro h
    exact nomatch h
  · intro h
    exact hlt (Option.some.inj h)

end Received

/-- A player id of which both halves are used arrives at either receiver if and only if the sender writes
the header field of the server. -/
theorem playerid_received (s : Sender) (r : Receiver) (pid : ℕ) (hpid : pid < 2 ^ 64)
    (hlow : transformPlayerid pid false ≠ 0) (hhigh : transformPlayerid pid true ≠ 0) :
    (∃ link, s.bytes pid = some link ∧ r.playerid link = some pid) ↔ s.WritesServerid := by
  cases s with
  | worldSendMessage sn cmd flag msg =>
    exact ⟨fun _ => trivial, fun _ => ⟨_, rfl, received_with_server r hpid hlow hhigh _ flag cmd sn msg⟩⟩
  | backendSend sn cmd flag msg =>
    exact ⟨fun _ => trivial, fun _ => ⟨_, rfl, received_with_server r hpid hlow hhigh _ flag cmd sn msg⟩⟩
  | sendAmfMessage cmd v =>
    exact ⟨fun _ => trivial, fun _ => ⟨_, rfl, received_with_server r hpid hlow hhigh _ 1 cmd 0 _⟩⟩
  | kick reason =>
    refine ⟨?_, fun h => h.elim⟩
    intro ⟨link, hb, h⟩
    rw [← Option.some.inj hb] at h
    exact received_without_server r hpid hlow hhigh _ 1 _ 0 _ h
  | kickPlayer reason =>
    refine ⟨?_, fun h => h.elim⟩
    intro ⟨link, hb, h⟩
    rw [← Option.some.inj hb] at h
    exact received_without_server r hpid hlow hhigh _ 1 _ 0 _ h

theorem playerid_received_server_two :
    ∃ link, (Sender.sendAmfMessage 4 (some (.array []))).bytes (2 * 2 ^ 32 + 100001) = some link ∧
      Receiver.gateway.playerid link = some (2 * 2 ^ 32 + 100001) :=
  (playerid_received _ _ _ (by decide) (by decide) (by decide)).mpr trivial

/-- The gateway takes the logout of player 100001 of server 2 for that of a player 100001 of no server. -/
theorem kick_received_as_other :
    ∃ link, (Sender.kick 1).bytes (2 * 2 ^ 32 + 100001) = some link ∧
      Receiver.gateway.playerid link = some 100001 ∧
      Receiver.gateway.playerid link ≠ some (2 * 2 ^ 32 + 100001) := by
  refine ⟨_, rfl, ?_, received_without_server _ (by decide) (by decide) (by decide) _ 1 _ 0 _⟩
  unfold kick
  rw [received_header .gateway _ 1 _ 0 _ (by decide) (by decide)]
  decide

end CServer.Gateway
