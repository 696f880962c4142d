import Audiox.Bluetooth.AvdtpCommand
import Mathlib

/-!
# Rejected commands

Every command is answered once.  A reject leaves the link as it was, with one
exception: the decoder is released before the library has accepted the new
configuration, and a refusal of the library leaves the link without it.
-/

namespace Audiox.Bluetooth

open ByteCodec CheckedRead BluetoothLink

/-! ## Reads inside the packet -/

theorem readByte_eq {data : Bytes} {pos : Nat} (h : pos < data.length) :
    readByte data pos = .ok (data.getD pos 0) := by
  rw [readByte, slice, if_pos (by omega)]
  have htake : (data.drop pos).take 1 = [data.getD pos 0] := by
    rw [List.drop_eq_getElem_cons h, List.take_succ_cons, List.take_zero,
      List.getD_eq_getElem _ _ h]
  rw [htake]
  rfl

theorem readElementAt_ok {data : Bytes} {pos : Nat} (h : pos + 4 ≤ data.length) :
    ∃ sbc, readElementAt data pos = .ok sbc := by
  rw [readElementAt, dif_pos h]
  exact ⟨_, rfl⟩

/-- The search for the codec stays inside the capabilities. -/
theorem findSbcFrom_ok (capabilities : Bytes) (fuel offset : Nat) :
    ∃ found, findSbcFrom capabilities fuel offset = .ok found := by
  induction fuel generalizing offset with
  | zero => exact ⟨none, rfl⟩
  | succ fuel ih =>
      rw [findSbcFrom]
      split
      case isFalse => exact ⟨none, rfl⟩
      case isTrue hroom =>
        rw [readByte_eq (by omega), ok_bind, readByte_eq (by omega), ok_bind]
        split
        case isTrue => exact ⟨none, rfl⟩
        case isFalse hlength =>
          split
          case isFalse => exact ih _
          case isTrue hcodec =>
            have hsix : 6 ≤ (capabilities.getD (offset + 1) 0).toNat := hcodec.2
            rw [readByte_eq (by omega), ok_bind, readByte_eq (by omega), ok_bind]
            split
            case isFalse => exact ih _
            case isTrue =>
              obtain ⟨sbc, hsbc⟩ :=
                @readElementAt_ok capabilities (offset + 4) (by omega)
              exact ⟨some sbc, by rw [hsbc]; rfl⟩

theorem offeredCodec_ok {reconfigure : Bool} {payload : Bytes}
    (h : (if reconfigure then 1 else 2) ≤ payload.length) :
    ∃ offered, offeredCodec reconfigure payload = .ok offered := by
  rw [offeredCodec, slice, if_pos (by omega), ok_bind]
  obtain ⟨found, hfound⟩ := findSbcFrom_ok
    ((payload.drop (if reconfigure then 1 else 2)).take
      (payload.length - if reconfigure then 1 else 2)) _ 0
  exact ⟨_, by rw [findSbcCodec, hfound, ok_bind]; rfl⟩

theorem acpSeidOf_ok (payload : Bytes) :
    acpSeidOf payload = .ok (payload.getD 0 0 >>> 2) := by
  rw [acpSeidOf]
  split
  case isTrue hpos =>
    rw [readByte_eq (by omega), ok_bind]
    rfl
  case isFalse hempty =>
    have hnil : payload = [] := List.length_eq_zero_iff.mp (by omega)
    rw [hnil]
    rfl

/-! ## What a signal leaves -/

/-- A reject leaves the link as it was, and nothing is closed behind it. -/
structure Switched.Sound (l : BluetoothLink) (r : Switched) : Prop where
  body : r.body.length ≤ 62
  rejected : r.error ≠ 0 → r.link = l ∧ r.closeInput = false ∧ r.closeOutput = false

theorem sound_of_accept {l : BluetoothLink} {r : Switched} (herror : r.error = 0)
    (hbody : r.body.length ≤ 62) : r.Sound l :=
  ⟨hbody, fun hno => absurd herror hno⟩

theorem sound_reject (l : BluetoothLink) (error : UInt8) :
    (Switched.reject l error).Sound l := by
  refine ⟨?_, fun _ => ⟨rfl, rfl, rfl⟩⟩
  simp [Switched.reject, Switched.accept]

/-- The decoder is released for a configuration that the library refuses. -/
def LosesDecoder (l : BluetoothLink) (env : CommandEnv) (signal : UInt8)
    (payload : Bytes) : Prop :=
  (signal = avdtpSetConfiguration ∨ signal = avdtpReconfigure) ∧
    l.configurationError (signal = avdtpReconfigure) payload
      (payload.getD 0 0 >>> 2) = 0 ∧
    (∃ sbc, offeredCodec (signal = avdtpReconfigure) payload = .ok (some sbc)) ∧
    l.decoderReady = true ∧ env.sbcInit = false

/-- The reject of a configuration that releases the decoder. -/
structure Switched.Lost (l : BluetoothLink) (r : Switched) : Prop where
  error : r.error ≠ 0
  link : r.link = l.finishDecoder
  closeInput : r.closeInput = false
  closeOutput : r.closeOutput = false

section Signals

variable {l : BluetoothLink} {env : CommandEnv} {payload : Bytes} {acpSeid : UInt8}

theorem sound_onDiscover : l.onDiscover.Sound l := by
  apply sound_of_accept rfl
  rw [onDiscover]
  cases hout : l.outConfigured with
  | true => simp [Switched.accept]
  | false => simp [Switched.accept]

theorem sound_onGetCapabilities : (l.onGetCapabilities payload acpSeid).Sound l := by
  rw [onGetCapabilities]
  split
  · exact sound_reject l _
  · split
    · exact sound_reject l _
    · apply sound_of_accept rfl
      simp [Switched.accept, sbcHeader, a2dpSbcSinkCapabilities]

theorem sound_onGetConfiguration : (l.onGetConfiguration acpSeid).Sound l := by
  rw [onGetConfiguration]
  split
  · exact sound_reject l _
  · split
    · exact sound_reject l _
    · apply sound_of_accept rfl
      simp [Switched.accept, sbcHeader, l.inConfig.length]

theorem sound_onOpen : (l.onOpen acpSeid).Sound l := by
  rw [onOpen]
  split
  · exact sound_reject l _
  · split
    · exact sound_reject l _
    · exact sound_of_accept rfl (by simp [Switched.accept])

theorem sound_onDelayReport : (l.onDelayReport acpSeid).Sound l := by
  rw [onDelayReport]
  split
  · exact sound_reject l _
  · exact sound_of_accept rfl (by simp [Switched.accept])

theorem sound_onStartSuspend {starting : Bool} :
    (l.onStartSuspend env starting payload acpSeid).Sound l := by
  rw [onStartSuspend]
  split
  · exact ⟨by simp [Switched.reject, Switched.accept], fun _ => ⟨rfl, rfl, rfl⟩⟩
  · split
    · exact ⟨by simp [Switched.reject, Switched.accept], fun _ => ⟨rfl, rfl, rfl⟩⟩
    · exact sound_of_accept rfl (by simp [Switched.accept])

theorem sound_onCloseAbort {closing : Bool} :
    (l.onCloseAbort closing acpSeid).Sound l := by
  rw [onCloseAbort]
  split
  · exact sound_of_accept rfl (by simp [Switched.accept])
  · split
    · split
      · exact sound_reject l _
      · exact sound_of_accept rfl (by simp [Switched.accept])
    · split
      · exact sound_reject l _
      · exact sound_of_accept rfl (by simp [Switched.accept])

theorem length_of_configurationError {reconfigure : Bool}
    (h : l.configurationError reconfigure payload acpSeid = 0) :
    (if reconfigure then 1 else 2) ≤ payload.length := by
  rw [configurationError] at h
  by_contra hshort
  rw [if_pos (Nat.lt_of_not_le hshort)] at h
  exact absurd h (by decide)

theorem configureSbcDecoder_fails {sbc : SbcElement} (h : env.sbcInit = false) :
    l.configureSbcDecoder sbc env.sbcInit = (l.finishDecoder, false) := by
  rw [configureSbcDecoder, h, if_neg Bool.false_ne_true]

/-- A configuration is the only thing that can lose a decoder. -/
theorem onConfiguration_spec (signal : UInt8)
    (hsignal : signal = avdtpSetConfiguration ∨ signal = avdtpReconfigure) :
    ∃ r, l.onConfiguration env (signal = avdtpReconfigure) payload
        (payload.getD 0 0 >>> 2) = .ok r ∧
      (LosesDecoder l env signal payload → r.Lost l) ∧
      (¬LosesDecoder l env signal payload → r.Sound l) ∧ r.body.length ≤ 62 := by
  rw [onConfiguration]
  by_cases herror : l.configurationError (signal = avdtpReconfigure) payload
      (payload.getD 0 0 >>> 2) = 0
  · rw [if_neg (by simpa using herror)]
    obtain ⟨offered, hoffered⟩ :=
      offeredCodec_ok (length_of_configurationError herror)
    rw [hoffered, ok_bind]
    cases offered with
    | none =>
        refine ⟨_, rfl, ?_, fun _ => ?_, by simp [Switched.reject, Switched.accept]⟩
        · rintro ⟨-, -, ⟨sbc, hsbc⟩, -⟩
          rw [hoffered] at hsbc
          simp at hsbc
        · exact ⟨by simp [Switched.reject, Switched.accept],
            fun _ => ⟨rfl, rfl, rfl⟩⟩
    | some sbc =>
        cases hinit : env.sbcInit with
        | true =>
            refine ⟨_, rfl, ?_, fun _ => ?_, by simp [Switched.accept]⟩
            · rintro ⟨-, -, -, -, hno⟩
              rw [hinit] at hno
              simp at hno
            · exact sound_of_accept rfl (by simp [Switched.accept])
        | false =>
            have hno : avdtpUnsupportedConfiguration ≠ 0 := by decide
            refine ⟨_, rfl, fun _ => ⟨hno, rfl, rfl, rfl⟩, ?_,
              by simp [Switched.reject, Switched.accept]⟩
            intro hkept
            refine ⟨by simp [Switched.reject, Switched.accept], fun _ => ?_⟩
            have hready : l.decoderReady = false := by
              by_contra hyes
              exact hkept ⟨hsignal, herror, ⟨sbc, hoffered⟩,
                by simpa using hyes, hinit⟩
            refine ⟨?_, rfl, rfl⟩
            change l.finishDecoder = l
            rw [finishDecoder, hready, if_neg Bool.false_ne_true]
  · rw [if_pos herror]
    refine ⟨_, rfl, ?_, fun _ => sound_reject l _,
      by simp [Switched.reject, Switched.accept]⟩
    rintro ⟨-, hzero, -⟩
    exact absurd hzero herror

/-- Every signal, with what it can leave. -/
theorem onSignal_spec (signal : UInt8) :
    ∃ result, l.onSignal env signal payload (payload.getD 0 0 >>> 2) = .ok result ∧
      (LosesDecoder l env signal payload → ∃ r, result = some r ∧ r.Lost l) ∧
      (¬LosesDecoder l env signal payload → ∀ r, result = some r → r.Sound l) ∧
      ∀ r, result = some r → r.body.length ≤ 62 := by
  have hsound : ∀ {r : Switched}, r.Sound l →
      ¬(signal = avdtpSetConfiguration ∨ signal = avdtpReconfigure) →
      ∃ result, (pure (some r) : Read Unit (Option Switched)) = .ok result ∧
        (LosesDecoder l env signal payload → ∃ r, result = some r ∧ r.Lost l) ∧
        (¬LosesDecoder l env signal payload → ∀ r, result = some r → r.Sound l) ∧
        ∀ r, result = some r → r.body.length ≤ 62 := by
    intro r hr hother
    refine ⟨some r, rfl, fun hloses => absurd hloses.1 hother, ?_, ?_⟩
    · rintro _ r' hr'
      rwa [← Option.some.inj hr']
    · rintro r' hr'
      rw [← Option.some.inj hr']
      exact hr.body
  rw [onSignal]
  split
  case isTrue h => exact hsound sound_onDiscover (by rw [h]; decide)
  split
  case isTrue h =>
    exact hsound sound_onGetCapabilities (by rcases h with h | h <;> rw [h] <;> decide)
  split
  case isTrue h =>
    obtain ⟨r, hr, hlost, hkept, hbody⟩ :=
      @onConfiguration_spec l env payload signal h
    refine ⟨some r, by rw [hr]; rfl, fun hloses => ⟨r, rfl, hlost hloses⟩, ?_, ?_⟩
    · rintro hkeeps r' hr'
      rw [← Option.some.inj hr']
      exact hkept hkeeps
    · rintro r' hr'
      rw [← Option.some.inj hr']
      exact hbody
  case isFalse hother =>
    split
    case isTrue h => exact hsound sound_onGetConfiguration hother
    split
    case isTrue h => exact hsound sound_onOpen hother
    split
    case isTrue h => exact hsound sound_onStartSuspend hother
    split
    case isTrue h => exact hsound sound_onCloseAbort hother
    split
    case isTrue h => exact hsound sound_onDelayReport hother
    case isFalse =>
      refine ⟨none, rfl, fun hloses => absurd hloses.1 hother, ?_, ?_⟩
      · rintro _ r hr
        simp at hr
      · rintro r hr
        simp at hr

end Signals

/-! ## The reply -/

def IsReject (reply : Bytes) : Prop :=
  reply.headD 0 &&& 0x03 = 0x01 ∨ reply.headD 0 &&& 0x03 = 0x03

instance (reply : Bytes) : Decidable (IsReject reply) :=
  inferInstanceAs (Decidable (_ ∨ _))

theorem header_byte (first : UInt8) :
    (first >>> 4 <<< 4 ||| 1) >>> 4 = first >>> 4 ∧
      (first >>> 4 <<< 4 ||| 2) >>> 4 = first >>> 4 ∧
      (first >>> 4 <<< 4 ||| 3) >>> 4 = first >>> 4 ∧
      (first >>> 4 <<< 4 ||| 1) &&& 0x03 = 1 ∧
      (first >>> 4 <<< 4 ||| 2) &&& 0x03 = 2 ∧
      (first >>> 4 <<< 4 ||| 3) &&& 0x03 = 3 := by
  revert first
  decide +kernel

theorem replyTo_label (first signal : UInt8) (result : Option Switched) :
    (replyTo (first >>> 4) signal result).headD 0 >>> 4 = first >>> 4 := by
  obtain ⟨hgeneral, haccept, hreject, -⟩ := header_byte first
  cases result with
  | none => exact hgeneral
  | some r =>
      rw [replyTo]
      split
      · exact hreject
      · exact haccept

theorem length_rejectDetail_le (signal : UInt8) (r : Switched) :
    (rejectDetail signal r).length ≤ 1 := by
  rw [rejectDetail]
  split
  · exact le_rfl
  · split
    · exact le_rfl
    · exact Nat.zero_le 1

theorem length_replyTo_le (transaction signal : UInt8) {result : Option Switched}
    (hbody : ∀ r, result = some r → r.body.length ≤ 62) :
    (replyTo transaction signal result).length ≤ 64 := by
  cases result with
  | none => simp [replyTo]
  | some r =>
      have hlen := hbody r rfl
      have hdetail := length_rejectDetail_le signal r
      rw [replyTo]
      split
      · simp
        omega
      · simp
        omega

theorem isReject_iff (first signal : UInt8) (r : Switched) :
    IsReject (replyTo (first >>> 4) signal (some r)) ↔ r.error ≠ 0 := by
  obtain ⟨-, -, -, -, haccept, hreject⟩ := header_byte first
  rw [replyTo]
  by_cases herror : r.error ≠ 0
  · rw [if_pos herror]
    exact ⟨fun _ => herror, fun _ => .inr hreject⟩
  · rw [if_neg herror]
    constructor
    · intro h
      have htwo : ((first >>> 4 <<< 4 ||| 2) &&& 0x03 = 0x01) ∨
          ((first >>> 4 <<< 4 ||| 2) &&& 0x03 = 0x03) := h
      rw [haccept] at htwo
      exact absurd htwo (by decide)
    · exact fun hyes => absurd hyes herror

/-! ## Several endpoints -/

/-- What has been named is acted on. -/
structure Names (l : BluetoothLink) (named : Named) (b : UInt8) : Prop where
  output : b >>> 2 = avdtpSourceSeid → l.outConfigured = true → named.output = true
  input : b >>> 2 = avdtpSinkSeid → named.input = true

theorem nameSeid_mono (l : BluetoothLink) (named : Named) (seid : UInt8) :
    (named.output = true → (l.nameSeid named seid).output = true) ∧
      (named.input = true → (l.nameSeid named seid).input = true) := by
  rw [nameSeid]
  split
  · split
    · exact ⟨id, id⟩
    · exact ⟨fun _ => rfl, id⟩
  · split
    · split
      · exact ⟨id, id⟩
      · exact ⟨id, fun _ => rfl⟩
    · exact ⟨id, id⟩

theorem errors_ne_zero : avdtpBadState ≠ 0 ∧ avdtpBadAcpSeid ≠ 0 ∧
    avdtpBadPayloadFormat ≠ 0 := by
  decide

theorem names_nameSeid {l : BluetoothLink} {named : Named} {b : UInt8}
    (h : (l.nameSeid named (b >>> 2)).error = 0) :
    Names l (l.nameSeid named (b >>> 2)) b := by
  rw [nameSeid] at h ⊢
  split
  case isTrue hsource =>
    rw [if_pos hsource] at h
    split
    case isTrue hclosed =>
      rw [if_pos hclosed] at h
      exact absurd h errors_ne_zero.1
    case isFalse =>
      refine ⟨fun _ _ => rfl, fun hsink => ?_⟩
      rw [hsource.1] at hsink
      exact absurd hsink (by decide)
  case isFalse hother =>
    rw [if_neg hother] at h
    split
    case isTrue hsink =>
      rw [if_pos hsink] at h
      split
      case isTrue hclosed =>
        rw [if_pos hclosed] at h
        exact absurd h errors_ne_zero.1
      case isFalse =>
        exact ⟨fun hsource hout => absurd ⟨hsource, hout⟩ hother, fun _ => rfl⟩
    case isFalse hnone =>
      rw [if_neg hnone] at h
      exact absurd h errors_ne_zero.2.1

theorem nameSeids_mono (l : BluetoothLink) (payload : Bytes) (named : Named) :
    (named.output = true → (l.nameSeids payload named).output = true) ∧
      (named.input = true → (l.nameSeids payload named).input = true) := by
  induction payload generalizing named with
  | nil => exact ⟨id, id⟩
  | cons b rest ih =>
      rw [nameSeids]
      split
      · exact ⟨id, id⟩
      · have hstep := nameSeid_mono l named (b >>> 2)
        have hrest := ih (l.nameSeid named (b >>> 2))
        exact ⟨hrest.1 ∘ hstep.1, hrest.2 ∘ hstep.2⟩

theorem error_nameSeids {l : BluetoothLink} {payload : Bytes} {named : Named}
    (h : (l.nameSeids payload named).error = 0) : named.error = 0 := by
  cases payload with
  | nil => exact h
  | cons b rest =>
      rw [nameSeids] at h
      split at h
      · exact h
      · rename_i hzero
        simpa using hzero

/-- Without an error every endpoint of the command was named. -/
theorem names_nameSeids {l : BluetoothLink} {payload : Bytes} {named : Named}
    (h : (l.nameSeids payload named).error = 0) :
    ∀ b ∈ payload, Names l (l.nameSeids payload named) b := by
  induction payload generalizing named with
  | nil => exact fun b hb => absurd hb List.not_mem_nil
  | cons first rest ih =>
      have hzero := error_nameSeids h
      rw [nameSeids, if_neg (by simpa using hzero)] at h ⊢
      intro b hb
      rcases List.mem_cons.mp hb with rfl | hrest
      · have hstep := names_nameSeid (error_nameSeids h)
        have hmono := nameSeids_mono l rest (l.nameSeid named (b >>> 2))
        exact ⟨fun hsource hout => hmono.1 (hstep.output hsource hout),
          fun hsink => hmono.2 (hstep.input hsink)⟩
      · exact ih h b hrest

theorem actOn_spec (l : BluetoothLink) (starting : Bool) (nowMs : Nat)
    (named : Named) :
    (named.output = true →
        (l.actOn starting nowMs named).outStreaming = starting) ∧
      (named.input = true →
        (l.actOn starting nowMs named).inStreaming = starting) := by
  cases starting with
  | true =>
      rw [actOn, if_pos rfl]
      constructor
      · intro hout
        rw [if_pos hout]
        split
        · rfl
        · rfl
      · intro hin
        generalize (if named.output = true then l.startOutput nowMs else l) = m
        by_cases hon : m.inStreaming = true
        · rw [if_neg fun hno => hno.2 hon]
          exact hon
        · rw [if_pos ⟨hin, hon⟩]
          rfl
  | false =>
      rw [actOn, if_neg Bool.false_ne_true]
      constructor
      · intro hout
        rw [if_pos hout]
        split
        · rfl
        · rfl
      · intro hin
        generalize (if named.output = true then l.stopOutput else l) = m
        by_cases hon : m.inStreaming = true
        · rw [if_pos ⟨hin, hon⟩]
          rfl
        · rw [if_neg fun hyes => hon hyes.2]
          simpa using hon

/-- The streams of the endpoints in a payload are all on, or all off. -/
def ActsOnAll (l l' : BluetoothLink) (starting : Bool) (payload : Bytes) : Prop :=
  ∀ b ∈ payload,
    (b >>> 2 = avdtpSourceSeid → l.outConfigured = true →
        l'.outStreaming = starting) ∧
      (b >>> 2 = avdtpSinkSeid → l'.inStreaming = starting)

theorem actsOnAll_onStartSuspend {l : BluetoothLink} {env : CommandEnv}
    {starting : Bool} {payload : Bytes} {acpSeid : UInt8}
    (h : (l.onStartSuspend env starting payload acpSeid).error = 0) :
    ActsOnAll l (l.onStartSuspend env starting payload acpSeid).link starting
        payload ∧
      (l.onStartSuspend env starting payload acpSeid).closeInput = false ∧
      (l.onStartSuspend env starting payload acpSeid).closeOutput = false := by
  rw [onStartSuspend] at h ⊢
  split
  case isTrue hempty =>
    rw [if_pos hempty] at h
    exact absurd h errors_ne_zero.2.2
  case isFalse hpos =>
    rw [if_neg hpos] at h
    split
    case isTrue herror =>
      rw [if_pos herror] at h
      exact absurd h herror
    case isFalse hzero =>
      refine ⟨?_, rfl, rfl⟩
      intro b hb
      have hnames := names_nameSeids (by simpa using hzero) b hb
      have hact := actOn_spec l starting env.nowMs
        (l.nameSeids payload ⟨false, false, 0, acpSeid⟩)
      exact ⟨fun hsource hout => hact.1 (hnames.output hsource hout),
        fun hsink => hact.2 (hnames.input hsink)⟩

theorem onSignal_startSuspend (l : BluetoothLink) (env : CommandEnv)
    {signal : UInt8} (payload : Bytes) (acpSeid : UInt8)
    (h : signal = avdtpStart ∨ signal = avdtpSuspend) :
    l.onSignal env signal payload acpSeid =
      .ok (some (l.onStartSuspend env (signal = avdtpStart) payload acpSeid)) := by
  rcases h with rfl | rfl
  · rfl
  · rfl

/-! ## Commands -/

theorem handleAvdtpCommand_eq {l : BluetoothLink} (env : CommandEnv) {packet : Bytes}
    (hopen : l.signalingFd = true) (hlen : 2 ≤ packet.length)
    {result : Option Switched}
    (hresult : l.onSignal env (packet.getD 1 0 &&& 0x3F) (packet.drop 2)
      ((packet.drop 2).getD 0 0 >>> 2) = .ok result) :
    l.handleAvdtpCommand env packet = .ok (l.afterReply result,
      [replyTo (packet.getD 0 0 >>> 4) (packet.getD 1 0 &&& 0x3F) result]) := by
  have hrest : (packet.drop 2).take (packet.length - 2) = packet.drop 2 := by
    apply List.take_of_length_le
    rw [List.length_drop]
  rw [handleAvdtpCommand, if_neg (by simp [hopen]; omega), readByte_eq (by omega),
    ok_bind, readByte_eq (by omega), ok_bind, slice, if_pos (by omega), ok_bind,
    hrest, acpSeidOf_ok, ok_bind, hresult, ok_bind]
  rfl

theorem afterReply_of_rejected {l : BluetoothLink} {r : Switched}
    (hlink : r.link = l) (hinput : r.closeInput = false)
    (houtput : r.closeOutput = false) (l' : BluetoothLink) :
    afterReply l' (some r) = l := by
  rw [afterReply, hinput, houtput, if_neg Bool.false_ne_true,
    if_neg Bool.false_ne_true, hlink]

/-- Every command is answered once; START and SUSPEND act on every endpoint or
are rejected; and a reject changes nothing exactly if the decoder in use is not
given up for a configuration that the library refuses. -/
theorem rejects_change_nothing_iff {l : BluetoothLink} (env : CommandEnv)
    {packet : Bytes} (hopen : l.signalingFd = true) (hlen : 2 ≤ packet.length) :
    ∃ l' reply, l.handleAvdtpCommand env packet = .ok (l', [reply]) ∧
      reply.length ≤ 64 ∧ reply.headD 0 >>> 4 = packet.getD 0 0 >>> 4 ∧
      (packet.getD 1 0 &&& 0x3F = avdtpStart ∨
          packet.getD 1 0 &&& 0x3F = avdtpSuspend →
        ¬IsReject reply → ActsOnAll l l' (packet.getD 1 0 &&& 0x3F = avdtpStart)
          (packet.drop 2)) ∧
      ((IsReject reply → l' = l) ↔
        ¬LosesDecoder l env (packet.getD 1 0 &&& 0x3F) (packet.drop 2)) := by
  obtain ⟨result, hresult, hlost, hsound, hbody⟩ :=
    @onSignal_spec l env (packet.drop 2) (packet.getD 1 0 &&& 0x3F)
  refine ⟨_, _, handleAvdtpCommand_eq env hopen hlen hresult,
    length_replyTo_le _ _ hbody, replyTo_label _ _ _, ?_, ?_, ?_⟩
  · intro hsignal haccept
    rw [onSignal_startSuspend l env _ _ hsignal] at hresult
    obtain rfl := Except.ok.inj hresult
    rw [isReject_iff, ne_eq, not_not] at haccept
    obtain ⟨hacts, hinput, houtput⟩ := actsOnAll_onStartSuspend haccept
    rw [afterReply_of_rejected rfl hinput houtput]
    exact hacts
  · intro hunchanged hloses
    obtain ⟨r, rfl, hr⟩ := hlost hloses
    have hsame := hunchanged ((isReject_iff _ _ r).mpr hr.error)
    rw [afterReply_of_rejected hr.link hr.closeInput hr.closeOutput] at hsame
    have hready := hloses.2.2.2.1
    have hgone : l.finishDecoder.decoderReady = false := by
      rw [finishDecoder, if_pos hready]
    rw [hsame, hready] at hgone
    simp at hgone
  · intro hkeeps hreject
    cases hcase : result with
    | none => rfl
    | some r =>
        rw [hcase, isReject_iff] at hreject
        obtain ⟨hlink, hinput, houtput⟩ :=
          (hsound hkeeps r hcase).rejected hreject
        exact afterReply_of_rejected hlink hinput houtput l

/-! ## A stream that is configured again -/

/-- A link whose device has just connected. -/
def acceptedLink : BluetoothLink :=
  { reset ⟨0, false, 0, 48000⟩ with
    used := true, signalingFd := true, wantInput := true }

def setConfigurationPacket : Bytes :=
  [0x00, 0x03, 0x04, 0x04, 0x01, 0x00, 0x07, 0x06, 0x00, 0x00, 0x11, 0x15, 2, 53]

def openPacket : Bytes := [0x10, 0x06, 0x04]

def reconfigurePacket : Bytes :=
  [0x20, 0x05, 0x04, 0x07, 0x06, 0x00, 0x00, 0x21, 0x15, 2, 53]

def afterCommand (l : BluetoothLink) (sbcInit : Bool) (packet : Bytes) :
    Option (BluetoothLink × List Bytes) :=
  (l.handleAvdtpCommand ⟨0, sbcInit⟩ packet).toOption

/-- The stream that was opened. -/
def openedLink : BluetoothLink :=
  (((afterCommand acceptedLink true setConfigurationPacket).bind fun r =>
    afterCommand r.1 true openPacket).map (·.1)).getD acceptedLink

theorem rejects_change_nothing_iff_reconfigure :
    ∃ l' reply, openedLink.handleAvdtpCommand ⟨0, true⟩ reconfigurePacket =
        .ok (l', [reply]) ∧ (IsReject reply → l' = openedLink) := by
  obtain ⟨l', reply, hhandle, -, -, -, hiff⟩ :=
    @rejects_change_nothing_iff openedLink ⟨0, true⟩ reconfigurePacket
      (by decide) (by decide)
  refine ⟨l', reply, hhandle, hiff.mpr ?_⟩
  rintro ⟨-, -, -, -, hno⟩
  simp at hno

/-- The stream was opened, its reconfiguration is rejected, and its decoder is
gone. -/
theorem reject_releases_decoder :
    openedLink.decoderReady = true ∧
      (afterCommand openedLink false reconfigurePacket).map (fun r =>
        (r.1.inConfigured, r.1.decoderReady, r.1.decoder, r.2)) =
          some (true, false, none, [[0x23, 0x05, 0x07, 0x29]]) := by
  decide

end Audiox.Bluetooth
