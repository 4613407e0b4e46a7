import CServer.Gateway.Frames

/-! # What the frame handlers of the gateway read beyond a frame -/
namespace CServer.Gateway
open CServer.Lib CServer.Framework CServer.World List Option

/-! ## Bytes of a frame -/

theorem ntohl_append {frame : List UInt8} {off : ℕ} (h : off + 4 ≤ frame.length) (trailing : List UInt8) :
    ntohl (frame ++ trailing) off = ntohl frame off := by
  unfold ntohl
  rw [drop_append_of_le_length (by omega), take_append_of_le_length (by rw [length_drop]; omega)]

theorem foldl_lt (bs : List UInt8) (n : ℕ) :
    bs.foldl (fun n b => n * 256 + b.toNat) n < (n + 1) * 256 ^ bs.length := by
  induction bs generalizing n with
  | nil => simp
  | cons b bs ih =>
    have hb := b.toNat_lt
    calc (b :: bs).foldl (fun n b => n * 256 + b.toNat) n < (n * 256 + b.toNat + 1) * 256 ^ bs.length := ih _
      _ ≤ ((n + 1) * 256) * 256 ^ bs.length := Nat.mul_le_mul_right _ (by omega)
      _ = (n + 1) * 256 ^ (b :: bs).length := by rw [length_cons, Nat.pow_succ']; ring

theorem ntohl_lt (link : List UInt8) (off : ℕ) : ntohl link off < 2 ^ 32 := by
  unfold ntohl
  have h := foldl_lt ((link.drop off).take 4) 0
  have hl : ((link.drop off).take 4).length ≤ 4 := length_take_le _ _
  calc _ < (0 + 1) * 256 ^ ((link.drop off).take 4).length := h
    _ ≤ (0 + 1) * 256 ^ 4 := Nat.mul_le_mul_left _ (Nat.pow_le_pow_right (by omega) hl)
    _ = 2 ^ 32 := by norm_num

theorem clientHeader_append {frame : List UInt8} (h : clientHeaderSize ≤ frame.length) (trailing : List UInt8) :
    clientHeader (frame ++ trailing) = clientHeader frame := by
  unfold clientHeaderSize at h
  unfold clientHeader
  rw [ntohl_append (by omega), ntohl_append (by omega), ntohl_append (by omega)]

theorem translateHeader_append {frame : List UInt8} (h : headerSize ≤ frame.length) (trailing : List UInt8) :
    translateHeader (frame ++ trailing) = translateHeader frame := by
  unfold headerSize at h
  unfold translateHeader
  rw [ntohl_append (by omega), ntohl_append (by omega), ntohl_append (by omega), ntohl_append (by omega),
    ntohl_append (by omega)]

theorem linkMem_nil (beyond : Mem) : linkMem [] beyond = beyond := by
  funext i
  unfold linkMem
  rw [if_neg (by simp), length_nil, Nat.sub_zero]

theorem linkMem_append (frame trailing : List UInt8) (beyond : Mem) (i : ℕ) :
    linkMem (frame ++ trailing) beyond (frame.length + i) = linkMem trailing beyond i := by
  unfold linkMem
  rw [length_append]
  by_cases hi : i < trailing.length
  · rw [if_pos (by omega), if_pos hi]
    simp only [List.getD_eq_getElem?_getD]
    rw [List.getElem?_append_right (by omega), Nat.add_sub_cancel_left]
  · rw [if_neg (by omega), if_neg hi]
    congr 1
    omega

theorem slice_linkMem (link : List UInt8) (beyond : Mem) (n : ℕ) :
    ∀ p, p + n ≤ link.length → slice (linkMem link beyond) p n = (link.drop p).take n := by
  induction n with
  | zero =>
    intro p _
    rw [slice_zero, take_zero]
  | succ n ih =>
    intro p h
    have hp : p < link.length := by omega
    rw [slice, ih (p + 1) (by omega), drop_eq_getElem_cons hp, take_succ_cons]
    unfold linkMem
    rw [if_pos hp, List.getD_eq_getElem?_getD, List.getElem?_eq_getElem hp, getD_some]

section Body
variable {header len : ℕ} {frame : List UInt8} (hheader : header ≤ len) (hlen : len < 2 ^ 32) (hframe : frame.length = len)
include hheader hlen hframe

theorem bodyLen_eq : header + bodyLen header len = frame.length := by
  unfold bodyLen
  omega

theorem body_append (trailing : List UInt8) (beyond : Mem) :
    body header len (frame ++ trailing) beyond = frame.drop header := by
  have hb := bodyLen_eq hheader hlen hframe
  unfold body
  rw [slice_linkMem _ _ _ _ (by rw [length_append]; omega), drop_append_of_le_length (by omega),
    take_append_of_le_length (by rw [length_drop]; omega)]
  exact take_of_length_le (by rw [length_drop]; omega)

theorem behindBody_append (trailing : List UInt8) (beyond : Mem) :
    behindBody header len (frame ++ trailing) beyond = linkMem trailing beyond := by
  funext i
  unfold behindBody
  rw [bodyLen_eq hheader hlen hframe]
  exact linkMem_append frame trailing beyond i

end Body

/-! ## Messages cut short -/

section Amf
variable {stale : Stale} {d : List UInt8}

theorem amfRead_behind (hcut : ¬ Cut d) (hover : ¬ Overfull d) :
    (∃ v, ∀ behind, amfRead stale behind d = .ok (some (v, d.length))) ∨
      ∀ behind, ∃ out, amfRead stale behind d = .ok out ∧ ∀ v, out ≠ some (v, d.length) := by
  by_cases h : ∃ behind v, amfRead stale behind d = .ok (some (v, d.length))
  · left
    obtain ⟨behind, v, hv⟩ := h
    obtain ⟨out, hout, hsame⟩ := (acceptsOnlyComplete_iff stale behind d).mpr ⟨fun hc => hcut hc.1, hover⟩
    have hsome : out = some (v, d.length) := ok_unique hout hv
    exact ⟨v, fun behind' => hsome ▸ (hsame v hsome).2 stale behind'⟩
  · right
    intro behind
    obtain ⟨out, hout⟩ := (amfRead_ok_iff stale behind d).mpr hover
    exact ⟨out, hout, fun v hv => h ⟨behind, v, by rw [hout, hv]⟩⟩

def unknownBehind : Mem := fun _ => amfCode .xmlDoc
def nullBehind : Mem := fun _ => amfCode .null

theorem cut_reads (h : Cut d) (stale : Stale) :
    amfRead stale unknownBehind d = .ok none ∧ ∃ v, amfRead stale nullBehind d = .ok (some (v, d.length)) := by
  obtain ⟨refs, hdue, hrefs⟩ := h
  constructor
  · have hx : ∀ fuel, readAmf stale unknownBehind (fuel + 1) refs [] = .ok none := fun _ => rfl
    exact (hdue.amfRead hrefs hx (by rintro r ⟨⟩)).2.1 rfl
  · obtain ⟨v, hv⟩ := readAmf_nil (show LeafBehind nullBehind from ⟨.null, rfl, rfl⟩) stale hrefs
    obtain ⟨-, -, hsome⟩ := hdue.amfRead hrefs hv (by rintro r ⟨⟩; rfl)
    exact hsome _ rfl

theorem amfRead_array {data : List UInt8} {behind : Mem} {v : AmfValue} {n : ℕ}
    (h : amfRead stale behind (amfCode .array :: data) = .ok (some (v, n))) : amfIsArray v = true := by
  unfold amfRead at h
  rw [readAmf_array, readArray] at h
  obtain ⟨r, hr, h⟩ := bind_ok_iff.mp h
  obtain ⟨header, -, hr⟩ := bind_ok_iff.mp hr
  cases header with
  | none =>
    rw [← Except.ok.inj hr] at h
    cases h
  | some header =>
    obtain ⟨child, -, hr⟩ := bind_ok_iff.mp hr
    cases child with
    | none =>
      rw [← Except.ok.inj hr] at h
      cases h
    | some child =>
      rw [← Except.ok.inj hr] at h
      have hv : AmfValue.array (child.1.map some) = v :=
        some.inj (congrArg (Option.map Prod.fst) (Except.ok.inj h))
      rw [← hv]
      rfl

theorem cut_isArray (h : Cut d) (hne : d ≠ []) {behind : Mem} {v : AmfValue} {n : ℕ}
    (hv : amfRead stale behind d = .ok (some (v, n))) : amfIsArray v = true := by
  obtain ⟨refs, hdue, -⟩ := h
  cases hdue with
  | here => exact absurd rfl hne
  | after _ h => cases h
  | inside hk h => exact amfRead_array hv

theorem amfRead_nil (stale : Stale) (behind : Mem) :
    ∃ out, amfRead stale behind [] = .ok out ∧ ∀ v n, out = some (v, n) → amfIsArray v = false := by
  unfold amfRead readAmf
  rw [headD_nil]
  have hnone : ∀ (v : AmfValue) (n : ℕ), none = some (v, n) → amfIsArray v = false := by
    intro v n hv
    cases hv
  cases ht : amfTypeOf (behind 0) with
  | none => exact ⟨none, rfl, hnone⟩
  | some t =>
    cases t with
    | array => exact ⟨none, rfl, hnone⟩
    | xmlDoc => exact ⟨none, rfl, hnone⟩
    | date => exact ⟨none, rfl, hnone⟩
    | object => exact ⟨none, rfl, hnone⟩
    | xml => exact ⟨none, rfl, hnone⟩
    | _ =>
      refine ⟨_, rfl, fun v n hv => ?_⟩
      obtain ⟨rfl, -⟩ := Prod.mk.inj (some.inj hv)
      rfl

end Amf

/-! ## A translating client -/

variable (env : GatewayEnv)

section Translate
variable {env} {c : Client} {h : ClientHeader} {frame msg : List UInt8} {behind : Mem} {v : AmfValue}

theorem translateFrame_refused {out : Option (AmfValue × ℕ)} (hread : amfRead env.stale behind msg = .ok out)
    (hno : ∀ v, out = some (v, msg.length) → amfIsArray v = false) :
    translateFrame env c h frame msg behind = .ok ([.close, .clientFree c.playerid], 0) := by
  unfold translateFrame
  rw [hread, ok_bind]
  cases out with
  | none => rfl
  | some r =>
    obtain ⟨v, readLen⟩ := r
    have hrefuse : readLen ≠ msg.length ∨ amfIsArray v = false := by
      by_cases hl : readLen = msg.length
      · exact .inr (hno v (by rw [hl]))
      · exact .inl hl
    simp only [if_pos hrefuse]
    rfl

theorem translateFrame_accepted (hread : amfRead env.stale behind msg = .ok (some (v, msg.length)))
    (harray : amfIsArray v = true) :
    translateFrame env c h frame msg behind = forwardMessage env c h frame msg v behind := by
  unfold translateFrame
  rw [hread, ok_bind]
  have hok : ¬ (msg.length ≠ msg.length ∨ amfIsArray v = false) := by
    rw [harray]
    simp
  simp only [if_neg hok]

theorem sendBackendMessage_ok {cmd flag : ℕ} (hread : amfRead env.stale behind msg = .ok (some (v, msg.length))) :
    ∃ r, sendBackendMessage env c cmd flag msg behind = .ok r := by
  unfold sendBackendMessage
  cases env.backendGet cmd with
  | none => exact ⟨_, rfl⟩
  | some peer =>
    simp only
    by_cases ha : env.backendAvailable peer = true
    · rw [if_pos ha]
      exact ⟨_, rfl⟩
    · rw [if_neg ha, hread, ok_bind]
      simp only [ne_eq, not_true_eq_false, if_false]
      exact ⟨_, rfl⟩

theorem accountName_length (pid : ℕ) : (accountName env pid).length ≤ 127 := length_take_le _ _

theorem loginToken_length (ip : List UInt8) : (loginToken c ip).length ≤ 127 := length_take_le _ _

theorem loginRequest_read {account token : List UInt8} (ha : account.length ≤ 127) (ht : token.length ≤ 127)
    (vip vip2 : UInt32) (stale : Stale) (behind : Mem) :
    ∃ v, amfRead stale behind (wire (some (loginRequest account token vip vip2))) =
      .ok (some (v, (wire (some (loginRequest account token vip vip2))).length)) := by
  have henc : Framework.Encodable (some (loginRequest account token vip vip2)) := by
    simp [loginRequest, Framework.Encodable, EncodableNode, EncodableChildren, u29Max]
    omega
  have huns : Unsigned (some (loginRequest account token vip vip2)) := by
    simp [loginRequest, Unsigned, UnsignedNode, UnsignedChildren]
  have hread := (items_wire _ [] henc huns).amfRead
    (by simp [loginRequest, strings, stringsNode, stringsChildren, stringRefSize]) [] stale behind
  rw [append_nil] at hread
  exact ⟨_, hread⟩

theorem loginMessage_read (v : AmfValue) (stale : Stale) (behind : Mem) :
    ∃ v', amfRead stale behind (loginMessage env c v) = .ok (some (v', (loginMessage env c v).length)) :=
  loginRequest_read (accountName_length c.playerid) (loginToken_length _) c.vip c.vip2 stale behind

theorem sendBackendMessage_congr {behind' : Mem} {cmd flag : ℕ}
    (h : amfRead env.stale behind msg = amfRead env.stale behind' msg) :
    sendBackendMessage env c cmd flag msg behind = sendBackendMessage env c cmd flag msg behind' := by
  unfold sendBackendMessage
  rw [h]

theorem forwardMessage_congr {behind' : Mem} (hread : amfRead env.stale behind msg = amfRead env.stale behind' msg) :
    forwardMessage env c h frame msg v behind = forwardMessage env c h frame msg v behind' := by
  unfold forwardMessage
  by_cases hl : h.cmd = cLoginRequest
  · simp only [if_pos hl]
  · simp only [if_neg hl, sendBackendMessage_congr hread]

theorem forwardMessage_ok (hread : amfRead env.stale behind msg = .ok (some (v, msg.length))) :
    ∃ effects ret, forwardMessage env c h frame msg v behind = .ok (effects, ret) ∧
      (Effect.close ∈ effects ∨ ret = h.len) ∧ effects ≠ [.close, .clientFree c.playerid] := by
  unfold forwardMessage
  by_cases hflag : h.flag ≠ 1 ∧ h.flag ≠ 2
  · rw [if_pos hflag]
    refine ⟨_, _, rfl, .inl (mem_append_right _ (mem_singleton_self _)), fun hn => ?_⟩
    have hlast := congrArg List.getLast? hn
    simp at hlast
  · rw [if_neg hflag]
    have hsend : ∃ r, sendBackendMessage env c h.cmd (if h.cmd = cLoginRequest then 1 else h.flag)
        (if h.cmd = cLoginRequest then loginMessage env c v else msg)
        (if h.cmd = cLoginRequest then fun _ => 0 else behind) = .ok r := by
      by_cases hl : h.cmd = cLoginRequest
      · obtain ⟨v', hv'⟩ := @loginMessage_read env c v env.stale fun _ => 0
        simp only [if_pos hl]
        exact sendBackendMessage_ok hv'
      · simp only [if_neg hl]
        exact sendBackendMessage_ok hread
    obtain ⟨r, hr⟩ := hsend
    simp only [hr, ok_bind]
    cases r with
    | some effects => exact ⟨_, _, rfl, .inr rfl, fun hn => Effect.noConfusion (cons.inj hn).1⟩
    | none =>
      by_cases hw : worldOf env c = invalidWorldId
      · simp only [if_pos hw]
        exact ⟨_, _, rfl, .inl (by simp), fun hn => Effect.noConfusion (cons.inj hn).1⟩
      · simp only [if_neg hw]
        exact ⟨_, _, rfl, .inr rfl, fun hn => Effect.noConfusion (cons.inj hn).1⟩

end Translate

theorem handled_ok {wrapped : Bool} {x : Except Fault (List Effect × ℕ)} {o : Handled} :
    handled wrapped x = .ok o ↔ x = .ok (o.effects, o.ret) ∧ o.wrapped = wrapped := by
  unfold handled
  cases x with
  | error e =>
    constructor
    · intro h
      cases h
    · intro ⟨h, _⟩
      cases h
  | ok r =>
    obtain ⟨effects, ret⟩ := r
    constructor
    · intro h
      rw [← Except.ok.inj h]
      exact ⟨rfl, rfl⟩
    · intro ⟨h, hw⟩
      obtain ⟨rfl, rfl⟩ := ok_pair_inj h
      rw [← hw]

theorem handled_unwrapped {p : Prop} [Decidable p] {x : Except Fault (List Effect × ℕ)} {o : Handled}
    (h : handled (decide p) x = .ok o) (hw : o.wrapped = false) : ¬ p ∧ x = .ok (o.effects, o.ret) := by
  obtain ⟨hok, hwrapped⟩ := handled_ok.mp h
  exact ⟨of_decide_eq_false (hwrapped.symm.trans hw), hok⟩

theorem closes_of_mem {o : Handled} (h : Effect.close ∈ o.effects) : o.closes := ⟨_, h, trivial⟩

/-! ### Frames of clients -/

section ClientFrames
variable {frame : List UInt8} (hlen : frame.length = max clientHeaderSize (clientHeader frame).len)
include hlen

theorem client_complete (trailing : List UInt8) : ¬ (frame ++ trailing).length < clientHeaderSize ∧
    ¬ (frame ++ trailing).length < (clientHeader frame).len := by
  rw [length_append]
  omega

theorem client_parts (hle : clientHeaderSize ≤ (clientHeader frame).len) (trailing : List UInt8) (beyond : Mem) :
    (frame ++ trailing).take (clientHeader frame).len = frame ∧
      body clientHeaderSize (clientHeader frame).len (frame ++ trailing) beyond = frame.drop clientHeaderSize ∧
      behindBody clientHeaderSize (clientHeader frame).len (frame ++ trailing) beyond = linkMem trailing beyond := by
  have hlt : (clientHeader frame).len < 2 ^ 32 := ntohl_lt frame 0
  have hframe : frame.length = (clientHeader frame).len := by omega
  refine ⟨?_, body_append hle hlt hframe trailing beyond, behindBody_append hle hlt hframe trailing beyond⟩
  rw [← hframe, take_left]

end ClientFrames

section TranslateFrames
variable {env} {c : Client} {frame : List UInt8} (hframe : (Handler.translating c).FirstFrame frame)
include hframe

theorem translateMessage_frame (trailing : List UInt8) (beyond : Mem) :
    translateMessage env c (frame ++ trailing) beyond =
      handled (decide ((clientHeader frame).len < clientHeaderSize))
        (translateFrame env c (clientHeader frame) ((frame ++ trailing).take (clientHeader frame).len)
          (body clientHeaderSize (clientHeader frame).len (frame ++ trailing) beyond)
          (behindBody clientHeaderSize (clientHeader frame).len (frame ++ trailing) beyond)) := by
  obtain ⟨hsize, hlen⟩ := hframe
  obtain ⟨h1, h2⟩ := client_complete hlen trailing
  unfold translateMessage
  rw [if_neg h1, clientHeader_append hsize]
  simp only [if_neg h2]

theorem translateMessage_sound (hle : clientHeaderSize ≤ (clientHeader frame).len) (trailing : List UInt8)
    (beyond : Mem) :
    translateMessage env c (frame ++ trailing) beyond =
      handled false (translateFrame env c (clientHeader frame) frame (frame.drop clientHeaderSize)
        (linkMem trailing beyond)) := by
  obtain ⟨htaken, hmsg, hbehind⟩ := client_parts hframe.2 hle trailing beyond
  rw [translateMessage_frame hframe, htaken, hmsg, hbehind, decide_eq_false (Nat.not_lt.mpr hle)]

theorem translateFrame_of_isolated (hle : clientHeaderSize ≤ (clientHeader frame).len) {o : Handled}
    (hall : ∀ trailing beyond, translateMessage env c (frame ++ trailing) beyond = .ok o) (behind : Mem) :
    translateFrame env c (clientHeader frame) frame (frame.drop clientHeaderSize) behind = .ok (o.effects, o.ret) := by
  have hnothing := (translateMessage_sound hframe hle [] behind).symm.trans (hall [] behind)
  rw [linkMem_nil] at hnothing
  exact (handled_ok.mp hnothing).1

theorem translating_isolated_iff : (Handler.translating c).Isolated env frame ↔ (Handler.translating c).Sound env frame := by
  constructor
  · intro ⟨o, hall, _, hw⟩
    have hle : clientHeaderSize ≤ (clientHeader frame).len := Nat.not_lt.mp
      (handled_unwrapped ((translateMessage_frame hframe [] fun _ => 0).symm.trans (hall [] fun _ => 0)) hw).1
    have hsame := translateFrame_of_isolated hframe hle hall
    refine ⟨hle, ?_, fun hcut => ?_⟩
    · apply (amfRead_ok_iff env.stale (fun _ => 0) _).mp
      obtain ⟨out, hout, -⟩ := bind_ok_iff.mp (hsame fun _ => 0)
      exact ⟨out, hout⟩
    · by_contra hne
      obtain ⟨hnone, v, hv⟩ := cut_reads hcut env.stale
      have hrefused := @translateFrame_refused env c (clientHeader frame) frame _ _ none hnone fun v hv => nomatch hv
      have haccepted := @translateFrame_accepted env c (clientHeader frame) frame _ _ v hv (cut_isArray hcut hne hv)
      obtain ⟨effects, ret, hok, -, hdiffer⟩ := @forwardMessage_ok env c (clientHeader frame) frame _ _ v hv
      have heffects := hsame unknownBehind
      rw [hrefused] at heffects
      have heffects' := hsame nullBehind
      rw [haccepted, hok] at heffects'
      exact hdiffer ((ok_pair_inj heffects').1.trans (ok_pair_inj heffects).1.symm)
  · intro ⟨hle, hover, hcut⟩
    have hresult : ∃ effects ret, (∀ behind, translateFrame env c (clientHeader frame) frame
        (frame.drop clientHeaderSize) behind = .ok (effects, ret)) ∧
        (Effect.close ∈ effects ∨ ret = (clientHeader frame).len) := by
      by_cases hc : Cut (frame.drop clientHeaderSize)
      · refine ⟨[.close, .clientFree c.playerid], 0, fun behind => ?_, .inl mem_cons_self⟩
        rw [hcut hc]
        obtain ⟨out, hout, hno⟩ := amfRead_nil env.stale behind
        exact translateFrame_refused hout fun v hv => hno v _ hv
      · cases @amfRead_behind env.stale _ hc hover with
        | inl h =>
          obtain ⟨v, hv⟩ := h
          by_cases ha : amfIsArray v = true
          · obtain ⟨effects, ret, hok, hret, -⟩ :=
              @forwardMessage_ok env c (clientHeader frame) frame _ _ v (hv fun _ => 0)
            refine ⟨effects, ret, fun behind => ?_, hret⟩
            rw [translateFrame_accepted (hv behind) ha, ← hok]
            exact forwardMessage_congr ((hv behind).trans (hv fun _ => 0).symm)
          · refine ⟨[.close, .clientFree c.playerid], 0, fun behind => ?_, .inl mem_cons_self⟩
            refine translateFrame_refused (hv behind) fun v' hv' => ?_
            rw [← (Prod.mk.inj (some.inj hv')).1]
            exact Bool.eq_false_iff.mpr ha
        | inr h =>
          refine ⟨[.close, .clientFree c.playerid], 0, fun behind => ?_, .inl mem_cons_self⟩
          obtain ⟨out, hout, hno⟩ := h behind
          exact translateFrame_refused hout fun v hv => absurd hv (hno v)
    obtain ⟨effects, ret, hall, hret⟩ := hresult
    refine ⟨⟨effects, ret, false⟩, fun trailing beyond => ?_, hret.imp_left closes_of_mem, rfl⟩
    show translateMessage env c (frame ++ trailing) beyond = _
    rw [translateMessage_sound hframe hle, hall]
    rfl

end TranslateFrames

/-! ## An authenticating client -/

section Auth
variable {env} {h : ClientHeader} {frame msg : List UInt8} {behind : Mem} {v : AmfValue}

theorem doAmfAuth_refused {out : Option (AmfValue × ℕ)} (hread : amfRead env.stale behind msg = .ok out)
    (hno : ∀ v, out = some (v, msg.length) → amfIsArray v = true → amfSize v < 3) :
    doAmfAuth env frame msg behind = .ok [.close] := by
  unfold doAmfAuth
  rw [hread, ok_bind]
  cases out with
  | none => rfl
  | some r =>
    obtain ⟨v, readLen⟩ := r
    have hrefuse : readLen ≠ msg.length ∨ amfIsArray v = false ∨ amfSize v < 3 := by
      by_cases hl : readLen = msg.length
      · right
        cases ha : amfIsArray v with
        | false => exact .inl rfl
        | true => exact .inr (hno v (by rw [hl]) ha)
      · exact .inl hl
    simp only [if_pos hrefuse]
    rfl

theorem doAmfAuth_accepted (hread : amfRead env.stale behind msg = .ok (some (v, msg.length)))
    (harray : amfIsArray v = true) (hsize : 3 ≤ amfSize v) :
    doAmfAuth env frame msg behind = authRequest env frame v := by
  unfold doAmfAuth
  rw [hread, ok_bind]
  have hok : ¬ (msg.length ≠ msg.length ∨ amfIsArray v = false ∨ amfSize v < 3) := by
    rw [harray]
    simp [hsize]
  simp only [if_neg hok]

theorem authRequest_ok : (∃ effects, authRequest env frame v = .ok effects) ↔
    (env.version = (if 3 < amfSize v then amfGetInteger env (amfGet v 3) else 0) →
      (amfGetString (amfGet v 1)).isSome ∧ (amfGetString (amfGet v 2)).isSome) := by
  unfold authRequest
  simp only
  by_cases hversion : env.version = if 3 < amfSize v then amfGetInteger env (amfGet v 3) else 0
  · rw [if_neg (not_not_intro hversion), ← hversion]
    cases amfGetString (amfGet v 1) <;> cases amfGetString (amfGet v 2) <;> simp
  · rw [if_pos hversion]
    exact ⟨fun _ h => absurd h hversion, fun _ => ⟨_, rfl⟩⟩

theorem authRequest_ne_close : authRequest env frame v ≠ .ok [.close] := by
  unfold authRequest
  simp only
  generalize (if 3 < amfSize v then amfGetInteger env (amfGet v 3) else 0) = version
  intro h
  by_cases hversion : env.version = version
  · rw [if_neg (not_not_intro hversion)] at h
    cases haccount : amfGetString (amfGet v 1) with
    | none => simp [haccount] at h
    | some account =>
      cases htoken : amfGetString (amfGet v 2) with
      | none => simp [haccount, htoken] at h
      | some token =>
        cases hsends : env.authserverSends <;> simp [haccount, htoken, hsends] at h
  · rw [if_pos hversion] at h
    exact Effect.noConfusion (cons.inj (Except.ok.inj h)).1

theorem authFrame_refused (hno : ¬ (h.cmd = cLoginRequest ∧ h.flag = 1)) :
    ∃ effects ret, Effect.close ∈ effects ∧ ∀ taken msg behind, authFrame env h taken msg behind = .ok (effects, ret) := by
  by_cases hcmd : h.cmd = cLoginRequest
  · have hflag : h.flag ≠ 1 := fun hflag => hno ⟨hcmd, hflag⟩
    refine ⟨[.close], h.len, mem_cons_self, fun taken msg behind => ?_⟩
    unfold authFrame
    rw [if_neg (not_not_intro hcmd), if_pos hflag]
    rfl
  · refine ⟨[.close], 0, mem_cons_self, fun taken msg behind => ?_⟩
    unfold authFrame
    rw [if_pos hcmd]
    rfl

theorem authFrame_login (hcmd : h.cmd = cLoginRequest) (hflag : h.flag = 1) :
    authFrame env h frame msg behind = (doAmfAuth env frame msg behind).map (·, h.len) := by
  unfold authFrame
  rw [if_neg (not_not_intro hcmd), if_neg (not_not_intro hflag)]
  cases doAmfAuth env frame msg behind <;> rfl

end Auth

/-! ### The two texts -/

theorem afterLines_append {bs : List UInt8} (trailing : List UInt8) :
    ∀ {n k : ℕ}, afterLines n bs = some k → afterLines n (bs ++ trailing) = some k := by
  induction bs with
  | nil =>
    intro n k h
    cases n with
    | zero => cases trailing <;> exact h
    | succ n => cases h
  | cons b bs ih =>
    intro n k h
    cases n with
    | zero => exact h
    | succ n =>
      obtain ⟨k', hk', hk⟩ := map_eq_some_iff.mp h
      rw [cons_append, afterLines, ih hk', map_some, hk]

theorem policyRequest_length : policyRequest.length = 23 := by decide

theorem ntohl_policy {frame trailing : List UInt8} (hsize : 4 ≤ frame.length)
    (h : (frame ++ trailing).take 23 = policyRequest) : ntohl frame 0 = 0x3c706f6c := by
  have htake : frame.take 4 = policyRequest.take 4 := by
    rw [← h, take_take, show min 4 23 = 4 from rfl, take_append_of_le_length hsize]
  have hdecide : (policyRequest.take 4).foldl (fun n b => n * 256 + b.toNat) 0 = 0x3c706f6c := by decide
  unfold ntohl
  rw [drop_zero, htake, hdecide]

theorem take_append_ne_tgw {frame : List UInt8} (trailing : List UInt8) (hsize : 4 ≤ frame.length)
    (h : frame.take 4 ≠ tgwHead) : (frame ++ trailing).take 4 ≠ tgwHead := by
  rw [take_append_of_le_length hsize]
  exact h

theorem take_append_ne_policy {frame : List UInt8} (trailing : List UInt8) (hsize : clientHeaderSize ≤ frame.length)
    (hlen : frame.length = max clientHeaderSize (clientHeader frame).len) (h : frame.take 23 ≠ policyRequest) :
    (frame ++ trailing).take 23 ≠ policyRequest := by
  unfold clientHeaderSize at hsize
  intro hpolicy
  have hlong : (clientHeader frame).len = 0x3c706f6c := ntohl_policy (by omega) hpolicy
  rw [take_append_of_le_length (by omega)] at hpolicy
  exact h hpolicy

theorem authMessage_policy (trailing : List UInt8) (beyond : Mem) :
    authMessage env (policyRequest ++ trailing) beyond = .ok ⟨[.sendPolicy], 23, false⟩ := by
  have htake : (policyRequest ++ trailing).take 23 = policyRequest := by
    rw [← policyRequest_length, take_left]
  have hne : policyRequest ++ trailing ≠ [] := fun h => nomatch (append_eq_nil_iff.mp h).1
  unfold authMessage
  rw [if_neg hne, if_pos htake]

theorem authMessage_tgw {frame : List UInt8} (hhead : frame.take 4 = tgwHead)
    (hlines : afterLines 3 frame = some frame.length) (trailing : List UInt8) (beyond : Mem) :
    authMessage env (frame ++ trailing) beyond = .ok ⟨[], frame.length, false⟩ := by
  have hsize : 4 ≤ frame.length := by
    have hl := congrArg List.length hhead
    rw [length_take, show tgwHead.length = 4 from rfl] at hl
    omega
  have htake : (frame ++ trailing).take 4 = tgwHead := by rw [take_append_of_le_length hsize, hhead]
  have hne : frame ++ trailing ≠ [] := by
    intro h
    rw [h] at htake
    exact absurd htake (by decide)
  have hpolicy : (frame ++ trailing).take 23 ≠ policyRequest := by
    intro h
    have hboth : policyRequest.take 4 = tgwHead := by
      rw [← h, take_take, ← htake]
      rfl
    exact absurd hboth (by decide)
  unfold authMessage
  rw [if_neg hne, if_neg hpolicy, if_pos htake]
  simp only [afterLines_append trailing hlines]

/-! ### Frames with a header -/

section AuthFrames
variable {env} {frame : List UInt8} (hpolicy : frame.take 23 ≠ policyRequest) (htgw : frame.take 4 ≠ tgwHead)
  (hsize : clientHeaderSize ≤ frame.length) (hlen : frame.length = max clientHeaderSize (clientHeader frame).len)
include hpolicy htgw hsize hlen

theorem authMessage_frame (trailing : List UInt8) (beyond : Mem) :
    authMessage env (frame ++ trailing) beyond =
      handled (decide ((clientHeader frame).cmd = cLoginRequest ∧ (clientHeader frame).flag = 1 ∧
          (clientHeader frame).len < clientHeaderSize))
        (authFrame env (clientHeader frame) ((frame ++ trailing).take (clientHeader frame).len)
          (body clientHeaderSize (clientHeader frame).len (frame ++ trailing) beyond)
          (behindBody clientHeaderSize (clientHeader frame).len (frame ++ trailing) beyond)) := by
  obtain ⟨h1, h2⟩ := client_complete hlen trailing
  have hlong : 4 ≤ frame.length := le_trans (by decide) hsize
  have hne : frame ++ trailing ≠ [] := by
    intro h
    rw [(append_eq_nil_iff.mp h).1] at hlong
    exact absurd hlong (by decide)
  unfold authMessage
  rw [if_neg hne, if_neg (take_append_ne_policy trailing hsize hlen hpolicy),
    if_neg (take_append_ne_tgw trailing hlong htgw), if_neg h1, clientHeader_append hsize]
  simp only [if_neg h2]

theorem authMessage_sound (hle : clientHeaderSize ≤ (clientHeader frame).len) (trailing : List UInt8) (beyond : Mem) :
    authMessage env (frame ++ trailing) beyond =
      handled false (authFrame env (clientHeader frame) frame (frame.drop clientHeaderSize)
        (linkMem trailing beyond)) := by
  obtain ⟨htaken, hmsg, hbehind⟩ := client_parts hlen hle trailing beyond
  have hwrapped : ¬ ((clientHeader frame).cmd = cLoginRequest ∧ (clientHeader frame).flag = 1 ∧
      (clientHeader frame).len < clientHeaderSize) := fun h => Nat.not_lt.mpr hle h.2.2
  rw [authMessage_frame hpolicy htgw hsize hlen, htaken, hmsg, hbehind, decide_eq_false hwrapped]

theorem headed_isolated_iff : Handler.authenticating.Isolated env frame ↔ Handler.authenticating.Sound env frame := by
  constructor
  · intro ⟨o, hall, _, hw⟩
    refine .inr (.inr fun hcmd hflag => ?_)
    have hle : clientHeaderSize ≤ (clientHeader frame).len := by
      have hno := (handled_unwrapped
        ((authMessage_frame hpolicy htgw hsize hlen [] fun _ => 0).symm.trans (hall [] fun _ => 0)) hw).1
      exact Nat.not_lt.mp fun hlt => hno ⟨hcmd, hflag, hlt⟩
    have hsame : ∀ behind, doAmfAuth env frame (frame.drop clientHeaderSize) behind = .ok o.effects := by
      intro behind
      have hnothing := (authMessage_sound hpolicy htgw hsize hlen hle [] behind).symm.trans (hall [] behind)
      rw [linkMem_nil, authFrame_login hcmd hflag] at hnothing
      have hmap := (handled_ok.mp hnothing).1
      cases hdo : doAmfAuth env frame (frame.drop clientHeaderSize) behind with
      | error e =>
        rw [hdo] at hmap
        cases hmap
      | ok effects =>
        rw [hdo] at hmap
        rw [(ok_pair_inj hmap).1]
    refine ⟨hle, ?_, fun v behind hread harray hthree => ⟨fun hcut => ?_, ?_⟩⟩
    · apply (amfRead_ok_iff env.stale (fun _ => 0) _).mp
      obtain ⟨out, hout, -⟩ := bind_ok_iff.mp (hsame fun _ => 0)
      exact ⟨out, hout⟩
    · obtain ⟨hnone, -⟩ := cut_reads hcut env.stale
      have hrefused := @doAmfAuth_refused env frame _ _ none hnone fun v hv => nomatch hv
      have haccepted := @doAmfAuth_accepted env frame _ _ v hread harray hthree
      exact authRequest_ne_close (haccepted.symm.trans ((hsame behind).trans ((hsame _).symm.trans hrefused)))
    · exact authRequest_ok.mp ⟨o.effects, (doAmfAuth_accepted hread harray hthree).symm.trans (hsame behind)⟩
  · intro hsound
    have hsound : (clientHeader frame).cmd = cLoginRequest → (clientHeader frame).flag = 1 → _ :=
      (hsound.resolve_left fun h => hpolicy (by rw [h]; decide)).resolve_left htgw
    by_cases hlogin : (clientHeader frame).cmd = cLoginRequest ∧ (clientHeader frame).flag = 1
    · obtain ⟨hcmd, hflag⟩ := hlogin
      obtain ⟨hle, hover, hvalue⟩ := hsound hcmd hflag
      have hresult : ∃ effects, ∀ behind, doAmfAuth env frame (frame.drop clientHeaderSize) behind = .ok effects := by
        by_cases hex : ∃ v behind, amfRead env.stale behind (frame.drop clientHeaderSize) =
            .ok (some (v, (frame.drop clientHeaderSize).length)) ∧ amfIsArray v = true ∧ 3 ≤ amfSize v
        · obtain ⟨v, behind, hread, harray, hthree⟩ := hex
          obtain ⟨hcut, hstrings⟩ := hvalue v behind hread harray hthree
          obtain ⟨effects, heffects⟩ := authRequest_ok.mpr hstrings
          cases @amfRead_behind env.stale _ hcut hover with
          | inl h =>
            obtain ⟨v', hv'⟩ := h
            have hv : v = v' := (Prod.mk.inj (some.inj (ok_unique hread (hv' behind)))).1
            refine ⟨effects, fun behind' => ?_⟩
            rw [doAmfAuth_accepted (hv' behind') (hv ▸ harray) (hv ▸ hthree), ← hv]
            exact heffects
          | inr h =>
            obtain ⟨out, hout, hno⟩ := h behind
            exact absurd (ok_unique hout hread) (hno v)
        · refine ⟨[.close], fun behind => ?_⟩
          obtain ⟨out, hout⟩ := (amfRead_ok_iff env.stale behind _).mpr hover
          refine doAmfAuth_refused hout fun v hv harray => ?_
          rw [hv] at hout
          exact Nat.not_le.mp fun hthree => hex ⟨v, behind, hout, harray, hthree⟩
      obtain ⟨effects, hall⟩ := hresult
      refine ⟨⟨effects, (clientHeader frame).len, false⟩, fun trailing beyond => ?_, .inr ?_, rfl⟩
      · show authMessage env (frame ++ trailing) beyond = _
        rw [authMessage_sound hpolicy htgw hsize hlen hle, authFrame_login hcmd hflag, hall]
        rfl
      · unfold Handler.announced
        rw [if_neg (not_or.mpr ⟨fun h => hpolicy (by rw [h]; decide), htgw⟩)]
    · obtain ⟨effects, ret, hclose, hall⟩ := @authFrame_refused env _ hlogin
      refine ⟨⟨effects, ret, false⟩, fun trailing beyond => ?_, .inl (closes_of_mem hclose), rfl⟩
      show authMessage env (frame ++ trailing) beyond = _
      have hwrapped : ¬ ((clientHeader frame).cmd = cLoginRequest ∧ (clientHeader frame).flag = 1 ∧
          (clientHeader frame).len < clientHeaderSize) := fun h => hlogin ⟨h.1, h.2.1⟩
      rw [authMessage_frame hpolicy htgw hsize hlen, hall, decide_eq_false hwrapped]
      rfl

end AuthFrames

theorem authenticating_isolated_iff {frame : List UInt8} (hframe : Handler.authenticating.FirstFrame frame) :
    Handler.authenticating.Isolated env frame ↔ Handler.authenticating.Sound env frame := by
  obtain hpolicy | ⟨htgw, hlines⟩ | ⟨hpolicy, htgw, hsize, hlen⟩ := hframe
  · subst hpolicy
    refine iff_of_true ⟨_, fun trailing beyond => authMessage_policy env trailing beyond, .inr ?_, rfl⟩ (.inl rfl)
    decide
  · refine iff_of_true ⟨_, fun trailing beyond => authMessage_tgw env htgw hlines trailing beyond, .inr ?_, rfl⟩
      (.inr (.inl htgw))
    unfold Handler.announced
    rw [if_pos (.inr htgw)]
  · exact headed_isolated_iff hpolicy htgw hsize hlen

/-! ## A world and a backend -/

section Links
variable {frame : List UInt8} (hlen : frame.length = max headerSize (translateHeader frame).len)
include hlen

theorem link_complete (trailing : List UInt8) : ¬ (frame ++ trailing).length < headerSize ∧
    ¬ (frame ++ trailing).length < (translateHeader frame).len := by
  rw [length_append]
  omega

theorem link_body (hle : headerSize ≤ (translateHeader frame).len) (trailing : List UInt8) (beyond : Mem) :
    body headerSize (translateHeader frame).len (frame ++ trailing) beyond = frame.drop headerSize :=
  body_append hle (ntohl_lt frame 0) (by omega) trailing beyond

/-- A handler that does `f` with the body of a message. -/
theorem link_isolated_iff (f : List UInt8 → Except Fault (List Effect)) {P : Prop}
    (hf : (∃ effects, f (frame.drop headerSize) = .ok effects) ↔ P) :
    (∃ o : Handled, (∀ trailing beyond, (handled (decide ((translateHeader frame).len < headerSize)) do
        let effects ← f (body headerSize (translateHeader frame).len (frame ++ trailing) beyond)
        return (effects, (translateHeader frame).len)) = .ok o) ∧
      (o.closes ∨ o.ret = (translateHeader frame).len) ∧ o.wrapped = false) ↔
    headerSize ≤ (translateHeader frame).len ∧ P := by
  constructor
  · rintro ⟨o, hall, -, hw⟩
    obtain ⟨hlt, hok⟩ := handled_unwrapped (hall [] fun _ => 0) hw
    have hle := Nat.not_lt.mp hlt
    obtain ⟨effects, heffects, -⟩ := bind_ok_iff.mp hok
    rw [link_body hlen hle] at heffects
    exact ⟨hle, hf.mp ⟨effects, heffects⟩⟩
  · rintro ⟨hle, hP⟩
    obtain ⟨effects, heffects⟩ := hf.mpr hP
    refine ⟨⟨effects, (translateHeader frame).len, false⟩, fun trailing beyond => ?_, .inr rfl, rfl⟩
    rw [link_body hlen hle, decide_eq_false (Nat.not_lt.mpr hle), heffects]
    rfl

end Links

theorem respondResult_ok {msg : List UInt8} : (∃ r, respondResult msg = .ok r) ↔
    ∃ sz data, amfDecodeArray msg = .ok (some (sz, data)) ∧ 2 ≤ sz := by
  unfold respondResult
  constructor
  · intro ⟨r, h⟩
    obtain ⟨a, ha, h⟩ := bind_ok_iff.mp h
    cases a with
    | none => cases h
    | some a =>
      obtain ⟨sz, data⟩ := a
      obtain ⟨_, hassert, _⟩ := bind_ok_iff.mp h
      refine ⟨sz, data, ha, ?_⟩
      by_contra hlt
      rw [decide_eq_false hlt] at hassert
      cases hassert
  · intro ⟨sz, data, ha, hsz⟩
    rw [ha, ok_bind]
    simp only [decide_eq_true hsz]
    exact ⟨_, rfl⟩

theorem translateToClient_ok {pid : ℕ} {h : TranslateHeader} {msg : List UInt8} :
    (∃ effects, translateToClient env pid h msg = .ok effects) ↔ ((connectedClient env pid).isSome →
      h.cmd = cLoginRespond ∨ h.cmd = cCreatePlayerRespond →
      ∃ sz data, amfDecodeArray msg = .ok (some (sz, data)) ∧ 2 ≤ sz) := by
  unfold translateToClient
  cases connectedClient env pid with
  | none => exact ⟨fun _ h => Bool.noConfusion h, fun _ => ⟨_, rfl⟩⟩
  | some c =>
    by_cases hcmd : h.cmd = cLoginRespond ∨ h.cmd = cCreatePlayerRespond
    · simp only [if_pos hcmd]
      rw [← respondResult_ok]
      constructor
      · intro ⟨effects, hok⟩ _ _
        obtain ⟨r, hr, -⟩ := bind_ok_iff.mp hok
        exact ⟨r, hr⟩
      · intro hok
        obtain ⟨⟨sn, result⟩, hr⟩ := hok rfl hcmd
        rw [hr, ok_bind]
        simp only
        by_cases hfails : h.cmd = cLoginRespond ∧ result ≠ retSuccess ∧ result ≠ retCharacterNotExist
        · rw [if_pos hfails]
          exact ⟨_, rfl⟩
        · rw [if_neg hfails]
          exact ⟨_, rfl⟩
    · simp only [if_neg hcmd]
      exact iff_of_true ⟨_, rfl⟩ fun _ h => absurd h hcmd

def framePid (frame : List UInt8) : ℕ := ntohlPidAndSid (translateHeader frame).playerid (translateHeader frame).serverid

def answerBroadcast (env : GatewayEnv) (world len : ℕ) (data : List UInt8) : Handling :=
  match env.broadcastRequest data with
  | none => .ok ⟨[.request data], len, false⟩
  | some r => .ok ⟨.request data :: broadcastToClient env r ++
      sendToWorld env world 0 sServiceBroadcastRespond 2 (env.broadcastRespond r.sn), len, false⟩

theorem world_isolated_iff {id : ℕ} {frame : List UInt8} (hframe : (Handler.world id).FirstFrame frame) :
    (Handler.world id).Isolated env frame ↔ (Handler.world id).Sound env frame := by
  obtain ⟨hsize, hlen⟩ : headerSize ≤ frame.length ∧ frame.length = max headerSize (translateHeader frame).len := hframe
  have hmessage : ∀ trailing beyond, worldMessage env id (frame ++ trailing) beyond =
      if (translateHeader frame).cmd = sServiceBroadcastRequest then
        if framePid frame ≠ 0 then .ok ⟨[], (translateHeader frame).len, false⟩
        else answerBroadcast env id (translateHeader frame).len (frame.drop headerSize ++ trailing)
      else
        handled (decide ((translateHeader frame).len < headerSize)) do
          let effects ← translateToClient env (framePid frame) (translateHeader frame)
            (body headerSize (translateHeader frame).len (frame ++ trailing) beyond)
          return (effects, (translateHeader frame).len) := by
    intro trailing beyond
    obtain ⟨h1, h2⟩ := link_complete hlen trailing
    unfold worldMessage
    rw [if_neg h1, translateHeader_append hsize, drop_append_of_le_length hsize]
    simp only [if_neg h2]
    rfl
  unfold Handler.Isolated Handler.Sound Handler.onMessage
  simp only [hmessage]
  by_cases hcmd : (translateHeader frame).cmd = sServiceBroadcastRequest
  · simp only [if_pos hcmd]
    by_cases hpid : framePid frame = 0
    · simp only [if_neg (not_not_intro hpid)]
      refine iff_of_false ?_ (not_not_intro hpid)
      rintro ⟨o, hall, -⟩
      -- The request is all that has been received.
      have hhead : ∀ trailing, o.effects.head? = some (.request (frame.drop headerSize ++ trailing)) := by
        intro trailing
        have ho := hall trailing fun _ => 0
        unfold answerBroadcast at ho
        cases hr : env.broadcastRequest (frame.drop headerSize ++ trailing) with
        | none =>
          rw [hr] at ho
          rw [← Except.ok.inj ho]
          rfl
        | some r =>
          rw [hr] at ho
          rw [← Except.ok.inj ho]
          rfl
      have hsame := Effect.request.inj (some_unique (hhead []) (hhead [0]))
      have hlength := congrArg List.length hsame
      simp at hlength
    · simp only [if_pos hpid]
      exact iff_of_true ⟨_, fun _ _ => rfl, .inr rfl, rfl⟩ hpid
  · simp only [if_neg hcmd]
    exact link_isolated_iff hlen _ (translateToClient_ok env)

theorem backendFrame_ok {peer pid : ℕ} {h : TranslateHeader} {msg : List UInt8} :
    (∃ effects, backendFrame env peer pid h msg = .ok effects) ↔
      (h.cmd = sServiceBroadcastRequest → pid = 0 → (env.broadcastRequest msg).isSome) := by
  unfold backendFrame
  by_cases hlogout : h.cmd = cLogoutRespond
  · rw [if_pos hlogout]
    exact iff_of_true ⟨_, rfl⟩ fun h' => absurd (hlogout.symm.trans h') (by decide)
  by_cases hregister : h.cmd = sServiceRegisterRespond
  · rw [if_neg hlogout, if_pos hregister]
    exact iff_of_true ⟨_, rfl⟩ fun h' => absurd (hregister.symm.trans h') (by decide)
  rw [if_neg hlogout, if_neg hregister]
  by_cases hcmd : h.cmd = sServiceBroadcastRequest
  · rw [if_pos hcmd]
    by_cases hpid : pid = 0
    · rw [if_neg (not_not_intro hpid)]
      cases env.broadcastRequest msg with
      | none => exact iff_of_false (fun ⟨_, h⟩ => nomatch h) fun h => Bool.noConfusion (h hcmd hpid)
      | some r => exact iff_of_true ⟨_, rfl⟩ fun _ _ => rfl
    · rw [if_pos hpid]
      exact iff_of_true ⟨_, rfl⟩ fun _ h => absurd h hpid
  · rw [if_neg hcmd]
    refine iff_of_true ?_ fun h => absurd h hcmd
    cases connectedClient env pid with
    | none => exact ⟨_, rfl⟩
    | some c => exact ⟨_, rfl⟩

theorem backend_isolated_iff {id : ℕ} {frame : List UInt8} (hframe : (Handler.backend id).FirstFrame frame) :
    (Handler.backend id).Isolated env frame ↔ (Handler.backend id).Sound env frame := by
  obtain ⟨hsize, hlen⟩ : headerSize ≤ frame.length ∧ frame.length = max headerSize (translateHeader frame).len := hframe
  have hmessage : ∀ trailing beyond, backendMessage env id (frame ++ trailing) beyond =
      handled (decide ((translateHeader frame).len < headerSize)) do
        let effects ← backendFrame env id (framePid frame) (translateHeader frame)
          (body headerSize (translateHeader frame).len (frame ++ trailing) beyond)
        return (effects, (translateHeader frame).len) := by
    intro trailing beyond
    obtain ⟨h1, h2⟩ := link_complete hlen trailing
    unfold backendMessage
    rw [if_neg h1, translateHeader_append hsize]
    simp only [if_neg h2]
    rfl
  unfold Handler.Isolated Handler.Sound Handler.onMessage
  simp only [hmessage]
  exact link_isolated_iff hlen _ (backendFrame_ok env)

/-! ## Every handler -/

/-- A handler does the same with a frame whatever comes behind it, and closes the connection or steps over the frame, if
and only if the frame is sound. -/
theorem isolated_iff (handler : Handler) (frame : List UInt8) (hframe : handler.FirstFrame frame) :
    handler.Isolated env frame ↔ handler.Sound env frame := by
  cases handler with
  | translating c => exact translating_isolated_iff hframe
  | authenticating => exact authenticating_isolated_iff env hframe
  | world id => exact world_isolated_iff env hframe
  | backend id => exact backend_isolated_iff env hframe

section Frames

def oneBroadcast : GatewayEnv where
  stale := ⟨0, 0⟩
  ofDouble := fun _ => 0
  clients := fun _ => none
  account := fun _ => none
  peerIp := []
  backendGet := fun _ => none
  backendAvailable := fun _ => false
  worldIsValid := fun _ => true
  worldGetIdleWorld := fun _ => 1
  version := 0
  serverId := 1
  authserverSends := true
  broadcastRequest := fun data => if data = [8, 7] then some ⟨7, 0, 1, [], []⟩ else none
  broadcastRespond := fun sn => [8, UInt8.ofNat sn, 16, 0]

/-- A frame of a translate header and two bytes, on channel 0. -/
def linkFrame (cmd : List UInt8) : List UInt8 :=
  [0, 0, 0, 30] ++ List.replicate 12 0 ++ [0, 0, 0, 1] ++ cmd ++ List.replicate 4 0 ++ [8, 7]

theorem isolated_backend_broadcast :
    (Handler.backend 3).Isolated oneBroadcast (linkFrame [0, 0, 3, 238]) := by
  apply (isolated_iff oneBroadcast (.backend 3) (linkFrame [0, 0, 3, 238]) ⟨by decide, by decide⟩).mpr
  exact ⟨by decide, fun _ _ => by decide⟩

/-- The same broadcast request from a world is answered, or not, by what has come behind it. -/
theorem world_broadcast_not_isolated :
    (Handler.world 1).FirstFrame (linkFrame [0, 0, 3, 238]) ∧
      (∀ beyond, ((Handler.world 1).onMessage oneBroadcast (linkFrame [0, 0, 3, 238]) beyond).map
        (·.effects.length) = .ok 3) ∧
      (∀ beyond, ((Handler.world 1).onMessage oneBroadcast (linkFrame [0, 0, 3, 238] ++ [0]) beyond).map
        (·.effects.length) = .ok 1) ∧
      ¬ (Handler.world 1).Isolated oneBroadcast (linkFrame [0, 0, 3, 238]) := by
  refine ⟨⟨by decide, by decide⟩, fun _ => rfl, fun _ => rfl, fun ⟨o, hall, _⟩ => ?_⟩
  have hone := congrArg (Except.map (·.effects.length)) (hall [0] fun _ => 0)
  have hthree := congrArg (Except.map (·.effects.length)) (hall [] fun _ => 0)
  exact absurd (Except.ok.inj (hone.trans hthree.symm)) (by decide)

end Frames

end CServer.Gateway
