import Audiox.Bluetooth.AvdtpReject
import Audiox.Support.Runs
import Mathlib

/-!
# Media packets

A media packet is an RTP packet with SBC frames, or with a fragment of a large
frame.  Fragments are collected in a buffer of the link until the last one.
The sequence numbers are looked at for the statistics only, so a fragment can
be put behind one that it does not follow.
-/

namespace Audiox.Bluetooth

open ByteCodec CheckedRead

/-! ## RTP packets -/

/-- An RTP packet with a payload. -/
structure Rtp where
  sequence : UInt16
  timestamp : UInt32
  payload : Bytes
deriving DecidableEq

/-- The header with its extension, if it fits. -/
def skipExtension (packet : Bytes) (first : UInt8) (headerLength : Nat) :
    Read Unit (Option Nat) :=
  if first &&& 0x10 ≠ 0 then
    if headerLength + 4 > packet.length then pure none
    else do
      let extensionWords ← readBe packet (headerLength + 2) 2
      if headerLength + 4 + extensionWords * 4 > packet.length then pure none
      else pure (some (headerLength + 4 + extensionWords * 4))
  else pure (some headerLength)

/-- The payload without its padding. -/
def dropPadding (packet : Bytes) (first : UInt8) (payloadLength : Nat) :
    Read Unit (Option Nat) :=
  if first &&& 0x20 ≠ 0 then do
    let padding ← readByte packet (packet.length - 1)
    if padding = 0 ∨ padding.toNat > payloadLength then pure none
    else pure (some (payloadLength - padding.toNat))
  else pure (some payloadLength)

/-- The part of `handleA2dpMedia` that takes the packet apart. -/
def rtpOf (packet : Bytes) : Read Unit (Option Rtp) :=
  if packet.length < 13 then pure none
  else do
    let first ← readByte packet 0
    if first >>> 6 ≠ 2 then pure none
    else if 12 + (first &&& 0x0F).toNat * 4 > packet.length then pure none
    else do
      let header ← skipExtension packet first
        (12 + (first &&& 0x0F).toNat * 4)
      match header with
      | none => pure none
      | some headerLength => do
          let unpadded ← dropPadding packet first
            (packet.length - headerLength)
          match unpadded with
          | none => pure none
          | some payloadLength =>
              if payloadLength = 0 then pure none
              else do
                let sequence ← readBe packet 2 2
                let timestamp ← readBe packet 4 4
                let payload ← slice packet headerLength payloadLength
                pure (some ⟨UInt16.ofNat sequence, UInt32.ofNat timestamp,
                  payload⟩)

/-! ## The link -/

/-- The codec library and the stream of the audio engine: what call number `n`
of the decoder consumes and puts out, and how many of the frames the stream
takes. -/
structure MediaEnv where
  sbcDecode : Nat → Bytes → Int × Nat
  push : Nat → Nat → Nat

/-- What a media packet reads and changes of a link.  The buffer is the list of
the bytes that it holds, and `decodeCalls` counts the calls of the decoder. -/
structure MediaLink where
  decoderReady : Bool
  decoderChannels : Nat
  fragment : Bytes
  fragmentActive : Bool
  inLastPacketMs : Nat
  inPackets : UInt32
  inFrames : UInt32
  inMaxGapMs : UInt32
  inLongGaps : UInt32
  inLostPackets : UInt32
  inSkippedFrames : UInt32
  inDecodeErrors : UInt32
  inRtpValid : Bool
  inRtpSequence : UInt16
  inRtpNextTimestamp : UInt32
  decodeCalls : Nat
deriving DecidableEq

def fragmentCapacity : Nat := 2048

/-- The bytes of `decoded`. -/
def decodedCapacity : Nat := 16 * 8 * 2 * 2

/-- The link after a payload, the byte strings that were handed to the decoder,
and the frames that the stream took. -/
structure Decoded where
  link : MediaLink
  handed : List Bytes
  totalFrames : Nat

def MediaLink.unchanged (l : MediaLink) : Decoded := ⟨l, [], 0⟩

/-- The loop over the frames of a payload. -/
def decodeFrames (env : MediaEnv) : Nat → Bytes → MediaLink → Decoded
  | 0, _, l => l.unchanged
  | frameCount + 1, frame, l =>
      if frame = [] then l.unchanged
      else if (env.sbcDecode l.decodeCalls frame).1 ≤ 0 ∨
          (env.sbcDecode l.decodeCalls frame).1 > frame.length ∨
          (env.sbcDecode l.decodeCalls frame).2 = 0 ∨
          (env.sbcDecode l.decodeCalls frame).2 > decodedCapacity then
        ⟨{ l with
          decodeCalls := l.decodeCalls + 1
          inDecodeErrors := l.inDecodeErrors + 1 }, [frame], 0⟩
      else if (env.sbcDecode l.decodeCalls frame).2 /
          (2 * l.decoderChannels) > 16 * 8 then
        ⟨{ l with decodeCalls := l.decodeCalls + 1 }, [frame], 0⟩
      else
        ⟨(decodeFrames env frameCount
            (frame.drop (env.sbcDecode l.decodeCalls frame).1.toNat)
            { l with decodeCalls := l.decodeCalls + 1 }).link,
          frame :: (decodeFrames env frameCount
            (frame.drop (env.sbcDecode l.decodeCalls frame).1.toNat)
            { l with decodeCalls := l.decodeCalls + 1 }).handed,
          env.push l.decodeCalls ((env.sbcDecode l.decodeCalls frame).2 /
              (2 * l.decoderChannels)) +
            (decodeFrames env frameCount
              (frame.drop (env.sbcDecode l.decodeCalls frame).1.toNat)
              { l with decodeCalls := l.decodeCalls + 1 }).totalFrames⟩

def isReserved (header : UInt8) : Bool := header &&& 0x10 != 0
def isFragmented (header : UInt8) : Bool := header &&& 0x80 != 0
def isStart (header : UInt8) : Bool := header &&& 0x40 != 0
def isLast (header : UInt8) : Bool := header &&& 0x20 != 0

/-- The buffer with a start or another fragment in front of which it is put. -/
def MediaLink.beginFragment (l : MediaLink) (header : UInt8) : MediaLink :=
  if isStart header then { l with fragment := [], fragmentActive := true }
  else l

def MediaLink.dropFragments (l : MediaLink) : MediaLink :=
  { l with fragment := [], fragmentActive := false }

/-- The payload calls itself for a frame that is complete; `depth` bounds how
often, and there is no result where it does not suffice. -/
def decodeSbcPayload (env : MediaEnv) : Nat → Bytes → MediaLink →
    Option Decoded
  | 0, _, _ => none
  | _ + 1, [], l => some l.unchanged
  | depth + 1, header :: body, l =>
      if l.decoderReady = false ∨ body = [] then some l.unchanged
      else if isReserved header then some l.unchanged
      else if isFragmented header then
        if isStart header = false ∧ l.fragmentActive = false then
          some l.unchanged
        else if body.length > sizeSub fragmentCapacity
            (l.beginFragment header).fragment.length then
          some l.dropFragments.unchanged
        else if isLast header then
          decodeSbcPayload env depth
            (1 :: ((l.beginFragment header).fragment ++ body))
            l.dropFragments
        else
          some ({ l.beginFragment header with
            fragment := (l.beginFragment header).fragment ++ body } :
              MediaLink).unchanged
      else if isStart header ∨ isLast header then some l.unchanged
      else if header &&& 0x0F = 0 then some l.unchanged
      else some (decodeFrames env (header &&& 0x0F).toNat body l)

/-! ## One packet -/

/-- The statistics of the arrival. -/
def MediaLink.arrived (l : MediaLink) (nowMs : Nat) (rtp : Rtp) : MediaLink :=
  { l with
    inMaxGapMs :=
      if l.inLastPacketMs ≠ 0 ∧
          l.inMaxGapMs < UInt32.ofNat (nowMs - l.inLastPacketMs) then
        UInt32.ofNat (nowMs - l.inLastPacketMs)
      else l.inMaxGapMs
    inLongGaps :=
      if l.inLastPacketMs ≠ 0 ∧
          60 ≤ UInt32.ofNat (nowMs - l.inLastPacketMs) then l.inLongGaps + 1
      else l.inLongGaps
    inLastPacketMs := nowMs
    inPackets := l.inPackets + 1
    inLostPackets :=
      if l.inRtpValid = true ∧ rtp.sequence - (l.inRtpSequence + 1) ≠ 0 ∧
          rtp.sequence - (l.inRtpSequence + 1) < 0x8000 then
        l.inLostPackets + (rtp.sequence - (l.inRtpSequence + 1)).toUInt32
      else l.inLostPackets
    inSkippedFrames :=
      if l.inRtpValid = true ∧ rtp.timestamp - l.inRtpNextTimestamp ≠ 0 ∧
          rtp.timestamp - l.inRtpNextTimestamp < 0x80000000 then
        l.inSkippedFrames + (rtp.timestamp - l.inRtpNextTimestamp)
      else l.inSkippedFrames }

def MediaLink.counted (l : MediaLink) (rtp : Rtp) (frames : Nat) : MediaLink :=
  { l with
    inFrames := l.inFrames + UInt32.ofNat frames
    inRtpValid := true
    inRtpSequence := rtp.sequence
    inRtpNextTimestamp := rtp.timestamp + UInt32.ofNat frames }

/-- A byte string that was handed to the decoder, and the packets so far. -/
structure Handed where
  bytes : Bytes
  packets : List Rtp
deriving DecidableEq

/-- The link, the packets that it took, and what the decoder was given. -/
structure MediaState where
  link : MediaLink
  packets : List Rtp
  handed : List Handed

/-- The payload may call itself once. -/
def handleA2dpMedia (env : MediaEnv) (s : MediaState) (nowMs : Nat)
    (packet : Bytes) : Read Unit MediaState := do
  let found ← rtpOf packet
  match found with
  | none => pure s
  | some rtp =>
      match decodeSbcPayload env 2 rtp.payload (s.link.arrived nowMs rtp) with
      | none => .error .pastEnd
      | some d =>
          pure ⟨d.link.counted rtp d.totalFrames, s.packets ++ [rtp],
            s.handed ++ d.handed.map fun bytes => ⟨bytes, s.packets ++ [rtp]⟩⟩

/-! ## What is meant -/

namespace Rtp

def header (p : Rtp) : UInt8 := p.payload.headD 0

/-- What follows the header byte of the payload. -/
def body (p : Rtp) : Bytes := p.payload.tail

/-- A packet with a fragment of a frame. -/
def IsFragment (p : Rtp) : Prop :=
  isReserved p.header = false ∧ isFragmented p.header = true

instance (p : Rtp) : Decidable p.IsFragment := by
  unfold IsFragment
  infer_instance

/-- A packet of the frame that more packets follow: a start with bytes, or one
in the middle. -/
def GoesOn (p : Rtp) : Prop :=
  p.IsFragment ∧ isLast p.header = false ∧
    (isStart p.header = true → p.body ≠ [])

instance (p : Rtp) : Decidable p.GoesOn := by
  unfold GoesOn
  infer_instance

/-- The next fragment of the same frame. -/
def FollowedBy (p q : Rtp) : Prop :=
  q.IsFragment ∧ isStart q.header = false ∧ q.sequence = p.sequence + 1

instance (p q : Rtp) : Decidable (p.FollowedBy q) := by
  unfold FollowedBy
  infer_instance

end Rtp

/-- The packets of a frame from its start on: fragments with consecutive
numbers, where each but the last one goes on. -/
def Frame : List Rtp → Prop
  | [] => False
  | [p] => p.IsFragment
  | p :: q :: ps => p.GoesOn ∧ p.FollowedBy q ∧ Frame (q :: ps)

/-- A frame that begins with its start. -/
def Started (ps : List Rtp) : Prop :=
  Frame ps ∧ ∃ p ∈ ps.head?, isStart p.header = true

/-- A frame from its start to its last packet. -/
def Complete (ps : List Rtp) : Prop :=
  Started ps ∧ ∃ p ∈ ps.getLast?, isLast p.header = true

def joined (ps : List Rtp) : Bytes :=
  (ps.map Rtp.body).flatten

/-- The decoder was given frames of one packet that is not fragmented, or of
the fragments of one frame. -/
def Handed.Exact (h : Handed) : Prop :=
  (∃ p ∈ h.packets.getLast?, isFragmented p.header = false ∧
    h.bytes <:+ p.body) ∨
  ∃ ps : List Rtp, ps.Sublist h.packets ∧ Complete ps ∧
    h.bytes <:+ joined ps

/-- A fragment that is not a start comes while a frame is being collected only
right behind the packet that it follows. -/
def MediaState.Follows (s : MediaState) (packet : Bytes) : Prop :=
  ∀ rtp : Rtp, rtpOf packet = .ok (some rtp) → rtp.IsFragment →
    isStart rtp.header = false → s.link.fragmentActive = true →
    ∃ before ∈ s.packets.getLast?, before.GoesOn ∧ before.FollowedBy rtp

/-- A packet that is no RTP packet follows. -/
instance (s : MediaState) (packet : Bytes) : Decidable (s.Follows packet) :=
  match h : rtpOf packet with
  | .ok (some rtp) =>
      decidable_of_iff (rtp.IsFragment → isStart rtp.header = false →
          s.link.fragmentActive = true →
          ∃ before ∈ s.packets.getLast?, before.GoesOn ∧ before.FollowedBy rtp)
        ⟨fun hone other hother => by
          obtain rfl : rtp = other := by
            rw [h] at hother
            exact Option.some.inj (Except.ok.inj hother)
          exact hone, fun hall => hall rtp h⟩
  | .ok none => isTrue fun _ hother => by rw [h] at hother; cases hother
  | .error _ => isTrue fun _ hother => by rw [h] at hother; cases hother

/-! ## Reads inside the packet -/

theorem readBe_ok {data : Bytes} {pos n : Nat}
    (h : pos + n ≤ data.length) :
    ∃ v : Nat, (readBe data pos n : Read Unit Nat) = .ok v :=
  ⟨_, readBe_eq_ok.mpr ⟨h, rfl⟩⟩

theorem skipExtension_ok (packet : Bytes) (first : UInt8)
    {headerLength : Nat} (h : headerLength ≤ packet.length) :
    ∃ header : Option Nat,
      skipExtension packet first headerLength = .ok header ∧
      ∀ n ∈ header, n ≤ packet.length := by
  rw [skipExtension]
  split_ifs with hextension hroom
  · exact ⟨none, rfl, by simp⟩
  · obtain ⟨words, hwords⟩ :=
      @readBe_ok packet (headerLength + 2) 2 (by omega)
    rw [hwords, ok_bind]
    split_ifs with hlong
    · exact ⟨none, rfl, by simp⟩
    · refine ⟨_, rfl, ?_⟩
      intro n hn
      obtain rfl := Option.some.inj hn
      exact not_lt.mp hlong
  · refine ⟨_, rfl, ?_⟩
    intro n hn
    obtain rfl := Option.some.inj hn
    exact h

theorem dropPadding_ok (packet : Bytes) (first : UInt8) (payloadLength : Nat)
    (h : 0 < packet.length) :
    ∃ unpadded : Option Nat,
      dropPadding packet first payloadLength = .ok unpadded ∧
      ∀ n ∈ unpadded, n ≤ payloadLength := by
  rw [dropPadding]
  split_ifs with hpadding
  · rw [readByte_eq (by omega), ok_bind]
    split_ifs with hbad
    · exact ⟨none, rfl, by simp⟩
    · refine ⟨_, rfl, ?_⟩
      intro n hn
      obtain rfl := Option.some.inj hn
      exact Nat.sub_le _ _
  · refine ⟨_, rfl, ?_⟩
    intro n hn
    obtain rfl := Option.some.inj hn
    exact le_rfl

/-- A packet is taken apart with reads inside it. -/
theorem rtpOf_ok (packet : Bytes) : ∃ found, rtpOf packet = .ok found := by
  rw [rtpOf]
  split_ifs with hshort
  · exact ⟨none, rfl⟩
  · rw [readByte_eq (by omega), ok_bind]
    split_ifs with hversion hlist
    · exact ⟨none, rfl⟩
    · exact ⟨none, rfl⟩
    · obtain ⟨header, hheader, hinside⟩ := skipExtension_ok packet
        (packet.getD 0 0) (not_lt.mp hlist)
      rw [hheader, ok_bind]
      cases header with
      | none => exact ⟨none, rfl⟩
      | some headerLength =>
          have hle := hinside headerLength rfl
          obtain ⟨unpadded, hunpadded, hpayload⟩ := dropPadding_ok packet
            (packet.getD 0 0) (packet.length - headerLength) (by omega)
          simp only
          rw [hunpadded, ok_bind]
          cases unpadded with
          | none => exact ⟨none, rfl⟩
          | some payloadLength =>
              have hfits := hpayload payloadLength rfl
              simp only
              split_ifs with hempty
              · exact ⟨none, rfl⟩
              · obtain ⟨sequence, hsequence⟩ :=
                  @readBe_ok packet 2 2 (by omega)
                obtain ⟨timestamp, htimestamp⟩ :=
                  @readBe_ok packet 4 4 (by omega)
                rw [hsequence, ok_bind, htimestamp, ok_bind, slice,
                  if_pos (by omega), ok_bind]
                exact ⟨_, rfl⟩

/-! ## The decoder -/

section

variable {env : MediaEnv} {l : MediaLink}

/-- The decoder is given ends of what there is, and the buffer stays. -/
theorem decodeFrames_spec (frameCount : Nat) (frame : Bytes) (l : MediaLink) :
    (∀ bytes ∈ (decodeFrames env frameCount frame l).handed,
      bytes <:+ frame) ∧
    (decodeFrames env frameCount frame l).link.fragment = l.fragment ∧
    (decodeFrames env frameCount frame l).link.fragmentActive =
      l.fragmentActive ∧
    (decodeFrames env frameCount frame l).link.decoderReady =
      l.decoderReady := by
  induction frameCount generalizing frame l with
  | zero => exact ⟨by simp [decodeFrames, MediaLink.unchanged], rfl, rfl, rfl⟩
  | succ frameCount ih =>
      rw [decodeFrames]
      split_ifs with hempty hbad hmany
      · exact ⟨by simp [MediaLink.unchanged], rfl, rfl, rfl⟩
      · refine ⟨?_, rfl, rfl, rfl⟩
        intro bytes hbytes
        rw [List.mem_singleton.mp hbytes]
      · refine ⟨?_, rfl, rfl, rfl⟩
        intro bytes hbytes
        rw [List.mem_singleton.mp hbytes]
      · obtain ⟨hhanded, hfragment, hactive, hready⟩ := ih
          (frame.drop (env.sbcDecode l.decodeCalls frame).1.toNat)
          { l with decodeCalls := l.decodeCalls + 1 }
        refine ⟨?_, hfragment, hactive, hready⟩
        intro bytes hbytes
        rcases List.mem_cons.mp hbytes with rfl | hbytes
        · exact List.suffix_refl _
        · exact (hhanded bytes hbytes).trans (List.drop_suffix _ _)

/-- What the link does with a payload. -/
inductive Outcome (env : MediaEnv) (l : MediaLink) (p : Rtp) :
    Decoded → Prop where
  /-- nothing, and not for want of a start -/
  | ignored (why : l.fragmentActive = true → l.decoderReady = true →
      p.IsFragment → p.body = []) : Outcome env l p l.unchanged
  | dropped : Outcome env l p l.dropFragments.unchanged
  | collected (fragment : p.IsFragment) (ready : l.decoderReady = true)
      (begun : isStart p.header = true ∨ l.fragmentActive = true)
      (notLast : isLast p.header = false)
      (fits : ((l.beginFragment p.header).fragment ++ p.body).length ≤
        fragmentCapacity) :
      Outcome env l p ({ l.beginFragment p.header with
        fragment := (l.beginFragment p.header).fragment ++ p.body } :
          MediaLink).unchanged
  | completed (fragment : p.IsFragment)
      (begun : isStart p.header = true ∨ l.fragmentActive = true)
      (last : isLast p.header = true) :
      Outcome env l p (decodeFrames env 1
        ((l.beginFragment p.header).fragment ++ p.body) l.dropFragments)
  | whole (notFragmented : isFragmented p.header = false) (frameCount : Nat) :
      Outcome env l p (decodeFrames env frameCount p.body l)

theorem length_beginFragment_le (l : MediaLink) (header : UInt8) :
    (l.beginFragment header).fragment.length ≤ l.fragment.length := by
  rw [MediaLink.beginFragment]
  split
  · exact Nat.zero_le _
  · exact le_rfl

/-- The decoding of a frame that is complete does not call itself. -/
theorem decodeSbcPayload_complete (depth : Nat) {frame : Bytes}
    (hne : frame ≠ []) (hready : l.decoderReady = true) :
    decodeSbcPayload env (depth + 1) (1 :: frame) l =
      some (decodeFrames env 1 frame l) := by
  rw [decodeSbcPayload, if_neg (by simp [hne, hready]), if_neg (by decide),
    if_neg (by decide), if_neg (by decide), if_neg (by decide)]
  rfl

/-- A payload calls itself once at most. -/
theorem decodeSbcPayload_outcome (p : Rtp)
    (hsmall : l.fragment.length ≤ fragmentCapacity) :
    ∃ d : Decoded, decodeSbcPayload env 2 p.payload l = some d ∧
      Outcome env l p d := by
  cases hpayload : p.payload with
  | nil =>
      refine ⟨_, rfl, .ignored ?_⟩
      intro _ _ _
      rw [Rtp.body, hpayload]
      rfl
  | cons header body =>
      have hheader : p.header = header := by
        rw [Rtp.header, hpayload]
        rfl
      have hbody : p.body = body := by
        rw [Rtp.body, hpayload]
        rfl
      rw [decodeSbcPayload]
      by_cases hidle : l.decoderReady = false ∨ body = []
      · rw [if_pos hidle]
        refine ⟨_, rfl, .ignored ?_⟩
        intro _ hready _
        rw [hbody]
        exact hidle.resolve_left (by simp [hready])
      · obtain ⟨hnotIdle, hne⟩ := not_or.mp hidle
        have hready : l.decoderReady = true := by simpa using hnotIdle
        rw [if_neg hidle]
        by_cases hreserved : isReserved header = true
        · rw [if_pos hreserved]
          refine ⟨_, rfl, .ignored ?_⟩
          intro _ _ hfragment
          rw [Rtp.IsFragment, hheader, hreserved] at hfragment
          exact absurd hfragment.1 (by decide)
        · rw [if_neg hreserved]
          by_cases hfragmented : isFragmented header = true
          · rw [if_pos hfragmented]
            have hfragment : p.IsFragment := by
              rw [Rtp.IsFragment, hheader]
              exact ⟨by simpa using hreserved, hfragmented⟩
            by_cases hlost : isStart header = false ∧ l.fragmentActive = false
            · rw [if_pos hlost]
              refine ⟨_, rfl, .ignored ?_⟩
              intro hactive _ _
              rw [hlost.2] at hactive
              cases hactive
            · rw [if_neg hlost]
              have hbegun : isStart p.header = true ∨
                  l.fragmentActive = true := by
                rw [hheader]
                rcases not_and_or.mp hlost with hstart | hactive
                · exact .inl (by simpa using hstart)
                · exact .inr (by simpa using hactive)
              have hbuffer := (length_beginFragment_le l header).trans hsmall
              have hroom : sizeSub fragmentCapacity
                  (l.beginFragment header).fragment.length =
                    fragmentCapacity -
                      (l.beginFragment header).fragment.length :=
                sizeSub_eq (by decide) hbuffer
              rw [hroom]
              split_ifs with hlong hlast
              · exact ⟨_, rfl, .dropped⟩
              · refine ⟨_, decodeSbcPayload_complete 0 (by simp [hne]) hready,
                  ?_⟩
                have hdone : Outcome env l p _ :=
                  .completed hfragment hbegun (by rw [hheader]; exact hlast)
                rwa [hheader, hbody] at hdone
              · refine ⟨_, rfl, ?_⟩
                have hmore : Outcome env l p _ :=
                  .collected hfragment hready hbegun
                    (by rw [hheader]; simpa using hlast) (by
                      rw [hheader, hbody, List.length_append]
                      omega)
                rwa [hheader, hbody] at hmore
          · rw [if_neg hfragmented]
            have hplain : isFragmented p.header = false := by
              rw [hheader]
              simpa using hfragmented
            have hquiet : Outcome env l p l.unchanged := by
              apply Outcome.ignored
              intro _ _ hfragment
              rw [hfragment.2] at hplain
              cases hplain
            split_ifs
            · exact ⟨_, rfl, hquiet⟩
            · exact ⟨_, rfl, hquiet⟩
            · refine ⟨_, rfl, ?_⟩
              have hwhole : Outcome env l p _ :=
                .whole hplain (header &&& 0x0F).toNat
              rwa [hbody] at hwhole

end

/-! ## Frames -/

theorem Frame.concat {ps : List Rtp} {q : Rtp} (p : Rtp) (h : Frame ps)
    (hlast : ps.getLast? = some q) (hgoes : q.GoesOn)
    (hnext : q.FollowedBy p) : Frame (ps ++ [p]) := by
  induction ps with
  | nil => exact h.elim
  | cons a ps ih =>
      cases ps with
      | nil =>
          obtain rfl : a = q := by simpa using hlast
          exact ⟨hgoes, hnext, hnext.1⟩
      | cons b ps =>
          obtain ⟨ha, hab, hrest⟩ := h
          refine ⟨ha, hab, ih hrest ?_⟩
          rwa [List.getLast?_cons_cons] at hlast

theorem Started.concat {ps : List Rtp} {q : Rtp} (p : Rtp) (h : Started ps)
    (hlast : ps.getLast? = some q) (hgoes : q.GoesOn)
    (hnext : q.FollowedBy p) : Started (ps ++ [p]) := by
  obtain ⟨hframe, start, hstart, hbit⟩ := h
  refine ⟨hframe.concat p hlast hgoes hnext, start, ?_, hbit⟩
  rw [List.head?_append, Option.mem_def.mp hstart]
  rfl

theorem started_single {p : Rtp} (hfragment : p.IsFragment)
    (hstart : isStart p.header = true) : Started [p] :=
  ⟨hfragment, p, rfl, hstart⟩

theorem joined_concat (ps : List Rtp) (p : Rtp) :
    joined (ps ++ [p]) = joined ps ++ p.body := by
  simp [joined]

/-! ## The buffer -/

/-- The fragments in the buffer are those of one frame, and they reach up to
the last packet if that one goes on. -/
def Collects (s : MediaState) (ps : List Rtp) : Prop :=
  Started ps ∧ joined ps = s.link.fragment ∧ ps.Sublist s.packets ∧
    ∀ q ∈ s.packets.getLast?, q.GoesOn → ps.getLast? = some q

structure MediaState.Inv (s : MediaState) : Prop where
  ready : s.link.fragmentActive = true → s.link.decoderReady = true
  collects : s.link.fragmentActive = true → ∃ ps : List Rtp, Collects s ps
  exact : ∀ h ∈ s.handed, h.Exact

/-- A buffer within its capacity stays so, whatever comes. -/
theorem Outcome.length_le {env : MediaEnv} {l : MediaLink} {p : Rtp}
    {d : Decoded} (h : Outcome env l p d)
    (hsmall : l.fragment.length ≤ fragmentCapacity) :
    d.link.fragment.length ≤ fragmentCapacity := by
  cases h with
  | ignored why => exact hsmall
  | dropped => exact Nat.zero_le _
  | collected fragment ready begun notLast fits => exact fits
  | completed fragment begun last =>
      rw [(decodeFrames_spec 1 _ _).2.1]
      exact Nat.zero_le _
  | whole notFragmented frameCount =>
      rw [(decodeFrames_spec frameCount _ _).2.1]
      exact hsmall

section

variable {env : MediaEnv} {s : MediaState} {nowMs : Nat} {packet : Bytes}

/-- One packet: it is no RTP packet, or its payload has one of the outcomes. -/
theorem handleA2dpMedia_ok (nowMs : Nat) (packet : Bytes)
    (hsmall : s.link.fragment.length ≤ fragmentCapacity) :
    handleA2dpMedia env s nowMs packet = .ok s ∨
    ∃ rtp d, rtpOf packet = .ok (some rtp) ∧
      Outcome env (s.link.arrived nowMs rtp) rtp d ∧
      handleA2dpMedia env s nowMs packet =
        .ok ⟨d.link.counted rtp d.totalFrames, s.packets ++ [rtp],
          s.handed ++
            d.handed.map fun bytes => ⟨bytes, s.packets ++ [rtp]⟩⟩ := by
  obtain ⟨found, hfound⟩ := rtpOf_ok packet
  cases found with
  | none =>
      left
      rw [handleA2dpMedia, hfound, ok_bind]
      rfl
  | some rtp =>
      right
      have harrived : (s.link.arrived nowMs rtp).fragment.length ≤
          fragmentCapacity := hsmall
      obtain ⟨d, hd, houtcome⟩ := @decodeSbcPayload_outcome env _ rtp harrived
      refine ⟨rtp, d, hfound, houtcome, ?_⟩
      rw [handleA2dpMedia, hfound, ok_bind]
      simp only [hd]
      rfl

/-- The frame that is being collected goes on with the packet. -/
theorem Collects.concat {ps : List Rtp} {rtp : Rtp} (h : Collects s ps)
    (hpacket : rtpOf packet = .ok (some rtp)) (hfollows : s.Follows packet)
    (hfragment : rtp.IsFragment) (hstart : isStart rtp.header = false)
    (hactive : s.link.fragmentActive = true) :
    Started (ps ++ [rtp]) ∧
      joined (ps ++ [rtp]) = s.link.fragment ++ rtp.body ∧
      (ps ++ [rtp]).Sublist (s.packets ++ [rtp]) := by
  obtain ⟨hstarted, hjoined, hsub, hreach⟩ := h
  obtain ⟨before, hbefore, hgoes, hnext⟩ :=
    hfollows rtp hpacket hfragment hstart hactive
  have hlast := hreach before hbefore hgoes
  refine ⟨hstarted.concat rtp hlast hgoes hnext, ?_,
    hsub.append (List.Sublist.refl _)⟩
  rw [joined_concat, hjoined]

/-- The statistics have no part in the buffer. -/
theorem fragment_arrived (l : MediaLink) (nowMs : Nat) (rtp : Rtp)
    (header : UInt8) :
    ((l.arrived nowMs rtp).beginFragment header).fragment =
      (l.beginFragment header).fragment := by
  rw [MediaLink.beginFragment, MediaLink.beginFragment]
  split <;> rfl

/-- What is collected with the packet: it alone if it is a start. -/
theorem collects_with {rtp : Rtp} (hinv : s.Inv)
    (hpacket : rtpOf packet = .ok (some rtp)) (hfollows : s.Follows packet)
    (hfragment : rtp.IsFragment)
    (hbegun : isStart rtp.header = true ∨ s.link.fragmentActive = true) :
    ∃ ps : List Rtp, Started ps ∧ ps.getLast? = some rtp ∧
      joined ps =
        (s.link.beginFragment rtp.header).fragment ++ rtp.body ∧
      ps.Sublist (s.packets ++ [rtp]) := by
  by_cases hstart : isStart rtp.header = true
  · refine ⟨[rtp], started_single hfragment hstart, rfl, ?_,
      List.sublist_append_right _ _⟩
    rw [MediaLink.beginFragment, if_pos hstart]
    exact List.append_nil _
  · have hactive := hbegun.resolve_left hstart
    obtain ⟨ps, hps⟩ := hinv.collects hactive
    obtain ⟨hstarted, hjoined, hsub⟩ := hps.concat hpacket hfollows hfragment
      (by simpa using hstart) hactive
    refine ⟨ps ++ [rtp], hstarted, by simp, ?_, hsub⟩
    rw [MediaLink.beginFragment, if_neg hstart]
    exact hjoined

/-- A packet that leaves the buffer alone, and what is collected there. -/
theorem collects_ignored {rtp : Rtp} (hinv : s.Inv)
    (hpacket : rtpOf packet = .ok (some rtp)) (hfollows : s.Follows packet)
    (hwhy : s.link.fragmentActive = true → s.link.decoderReady = true →
      rtp.IsFragment → rtp.body = [])
    (hactive : s.link.fragmentActive = true) :
    ∃ ps : List Rtp, Started ps ∧ joined ps = s.link.fragment ∧
      ps.Sublist (s.packets ++ [rtp]) ∧
      (rtp.GoesOn → ps.getLast? = some rtp) := by
  obtain ⟨ps, hps⟩ := hinv.collects hactive
  by_cases hgoes : rtp.GoesOn
  · obtain ⟨hfragment, _, hbytes⟩ := hgoes
    have hempty := hwhy hactive (hinv.ready hactive) hfragment
    have hstart : isStart rtp.header = false := by
      by_contra hne
      exact hbytes (by simpa using hne) hempty
    obtain ⟨hstarted, hjoined, hsub⟩ :=
      hps.concat hpacket hfollows hfragment hstart hactive
    refine ⟨ps ++ [rtp], hstarted, ?_, hsub, fun _ => by simp⟩
    rw [hjoined, hempty, List.append_nil]
  · obtain ⟨hstarted, hjoined, hsub, _⟩ := hps
    exact ⟨ps, hstarted, hjoined,
      hsub.trans (List.sublist_append_left _ _), fun h => absurd h hgoes⟩

/-- What a packet hands to the decoder is exact where the packet follows. -/
theorem handed_exact {rtp : Rtp} {d : Decoded} (hinv : s.Inv)
    (hpacket : rtpOf packet = .ok (some rtp)) (hfollows : s.Follows packet)
    (houtcome : Outcome env (s.link.arrived nowMs rtp) rtp d) :
    ∀ bytes ∈ d.handed, Handed.Exact ⟨bytes, s.packets ++ [rtp]⟩ := by
  intro bytes hbytes
  cases houtcome with
  | ignored why => exact absurd hbytes List.not_mem_nil
  | dropped => exact absurd hbytes List.not_mem_nil
  | collected fragment ready begun notLast fits =>
      exact absurd hbytes List.not_mem_nil
  | completed fragment begun last =>
      obtain ⟨ps, hstarted, hlast, hjoined, hsub⟩ :=
        collects_with hinv hpacket hfollows fragment begun
      refine .inr ⟨ps, hsub, ⟨hstarted, rtp, hlast, last⟩, ?_⟩
      have hend := (decodeFrames_spec 1 _ _).1 bytes hbytes
      rw [hjoined]
      rwa [fragment_arrived] at hend
  | whole notFragmented frameCount =>
      exact .inl ⟨rtp, by simp, notFragmented,
        (decodeFrames_spec frameCount _ _).1 bytes hbytes⟩

/-- Where the collecting goes on behind a packet, the fragments are those of
one frame. -/
theorem collects_after {rtp : Rtp} {d : Decoded} (hinv : s.Inv)
    (hpacket : rtpOf packet = .ok (some rtp)) (hfollows : s.Follows packet)
    (houtcome : Outcome env (s.link.arrived nowMs rtp) rtp d)
    (hactive : d.link.fragmentActive = true) :
    d.link.decoderReady = true ∧
    ∃ ps : List Rtp, Started ps ∧ joined ps = d.link.fragment ∧
      ps.Sublist (s.packets ++ [rtp]) ∧
      (rtp.GoesOn → ps.getLast? = some rtp) := by
  cases houtcome with
  | ignored why =>
      exact ⟨hinv.ready hactive,
        collects_ignored hinv hpacket hfollows why hactive⟩
  | dropped => cases hactive
  | collected fragment ready begun notLast fits =>
      obtain ⟨ps, hstarted, hlast, hjoined, hsub⟩ :=
        collects_with hinv hpacket hfollows fragment begun
      refine ⟨?_, ps, hstarted, ?_, hsub, fun _ => hlast⟩
      · have hready : ((s.link.arrived nowMs rtp).beginFragment
            rtp.header).decoderReady =
              (s.link.arrived nowMs rtp).decoderReady := by
          rw [MediaLink.beginFragment]
          split <;> rfl
        exact hready.trans ready
      · rw [hjoined, ← fragment_arrived s.link nowMs rtp rtp.header]
        rfl
  | completed fragment begun last =>
      rw [(decodeFrames_spec 1 _ _).2.2.1] at hactive
      cases hactive
  | whole notFragmented frameCount =>
      obtain ⟨_, hfragment, hkept, hready⟩ :=
        @decodeFrames_spec env frameCount rtp.body (s.link.arrived nowMs rtp)
      rw [hkept] at hactive
      rw [hfragment, hready]
      refine ⟨hinv.ready hactive,
        collects_ignored hinv hpacket hfollows ?_ hactive⟩
      intro _ _ hfragmented
      rw [hfragmented.2] at notFragmented
      cases notFragmented

/-- A packet that follows preserves the invariant. -/
theorem inv_handle {s' : MediaState} (hinv : s.Inv)
    (hsmall : s.link.fragment.length ≤ fragmentCapacity)
    (hfollows : s.Follows packet)
    (h : handleA2dpMedia env s nowMs packet = .ok s') : s'.Inv := by
  rcases @handleA2dpMedia_ok env s nowMs packet hsmall with
    hquiet | ⟨rtp, d, hpacket, houtcome, hok⟩
  · rw [hquiet] at h
    obtain rfl := Except.ok.inj h
    exact hinv
  · rw [hok] at h
    obtain rfl := Except.ok.inj h
    have hafter := collects_after hinv hpacket hfollows houtcome
    refine ⟨fun hactive => (hafter hactive).1, ?_, ?_⟩
    · intro hactive
      obtain ⟨_, ps, hstarted, hjoined, hsub, hreach⟩ := hafter hactive
      refine ⟨ps, hstarted, hjoined, hsub, ?_⟩
      intro q hq hgoes
      obtain rfl : rtp = q := by simpa using hq
      exact hreach hgoes
    · intro handed hhanded
      rcases List.mem_append.mp hhanded with hold | hnew
      · exact hinv.exact handed hold
      · obtain ⟨bytes, hbytes, rfl⟩ := List.mem_map.mp hnew
        exact handed_exact hinv hpacket hfollows houtcome bytes hbytes

end

/-! ## Runs -/

/-- A packet with the time of its arrival. -/
def step (env : MediaEnv) (s : MediaState) (e : Nat × Bytes) :
    Option MediaState :=
  (handleA2dpMedia env s e.1 e.2).toOption

/-- A link whose stream starts. -/
def MediaLink.opened (decoderReady : Bool) (decoderChannels : Nat) :
    MediaLink :=
  ⟨decoderReady, decoderChannels, [], false, 0, 0, 0, 0, 0, 0, 0, 0, false, 0,
    0, 0⟩

def MediaState.opened (decoderReady : Bool) (decoderChannels : Nat) :
    MediaState :=
  ⟨.opened decoderReady decoderChannels, [], []⟩

theorem MediaState.inv_opened (decoderReady : Bool) (decoderChannels : Nat) :
    (opened decoderReady decoderChannels).Inv := by
  refine ⟨?_, ?_, ?_⟩
  · intro h
    cases h
  · intro h
    cases h
  · intro handed hhanded
    cases hhanded

/-- Every sequence of packets is taken, with a buffer that fits. -/
theorem run_inside (env : MediaEnv) {s : MediaState}
    (hsmall : s.link.fragment.length ≤ fragmentCapacity)
    (packets : List (Nat × Bytes)) :
    ∃ s', packets.foldlM (step env) s = some s' ∧
      s'.link.fragment.length ≤ fragmentCapacity := by
  induction packets generalizing s with
  | nil => exact ⟨s, rfl, hsmall⟩
  | cons e packets ih =>
      rw [List.foldlM_cons]
      rcases @handleA2dpMedia_ok env s e.1 e.2 hsmall with
        hquiet | ⟨rtp, d, _, houtcome, hok⟩
      · rw [step, hquiet]
        exact ih hsmall
      · rw [step, hok]
        exact ih (houtcome.length_le hsmall)

theorem step_length_le {env : MediaEnv} {s s' : MediaState} {e : Nat × Bytes}
    (hsmall : s.link.fragment.length ≤ fragmentCapacity)
    (h : step env s e = some s') :
    s'.link.fragment.length ≤ fragmentCapacity := by
  obtain ⟨t, ht, hlength⟩ := run_inside env hsmall [e]
  rw [List.foldlM_cons, h] at ht
  obtain rfl := Option.some.inj ht
  exact hlength

/-- No sequence of packets makes the link read outside a packet, put more into
the buffer than it holds, or call the decoding a third time.  As long as no
fragment comes behind one that it does not follow, the decoder is given the
frames of one packet, or those of the fragments of one frame. -/
theorem media_reassembled (env : MediaEnv) (decoderReady : Bool)
    (decoderChannels : Nat) :
    (∀ packets : List (Nat × Bytes), ∃ s : MediaState,
      packets.foldlM (step env) (.opened decoderReady decoderChannels) =
        some s ∧
      s.link.fragment.length ≤ fragmentCapacity) ∧
    ∀ (packets : List (Nat × Bytes)) (s : MediaState),
      Runs.Run (Runs.Guarded (fun s e => s.Follows e.2) (step env))
        (.opened decoderReady decoderChannels) packets s →
      ∀ h ∈ s.handed, h.Exact := by
  constructor
  · exact run_inside env (Nat.zero_le _)
  · intro packets s hrun
    have hkept : s.Inv ∧ s.link.fragment.length ≤ fragmentCapacity := by
      refine hrun.invariant (P := fun _ => True)
        (fun s => s.Inv ∧ s.link.fragment.length ≤ fragmentCapacity) ?_
        (fun _ _ => trivial) ⟨MediaState.inv_opened _ _, Nat.zero_le _⟩
      intro s e s' _ hbefore hstep
      obtain ⟨hinv, hsmall⟩ := hbefore
      obtain ⟨hfollows, htaken⟩ := hstep
      have hok : handleA2dpMedia env s e.1 e.2 = .ok s' := by
        rw [step] at htaken
        cases hresult : handleA2dpMedia env s e.1 e.2 with
        | error why =>
            rw [hresult] at htaken
            cases htaken
        | ok t =>
            rw [hresult] at htaken
            rw [Option.some.inj htaken]
      exact ⟨inv_handle hinv hsmall hfollows hok,
        step_length_le hsmall htaken⟩
    exact hkept.1.exact

/-- A decoder that takes all bytes that it is given. -/
def takesAll : MediaEnv :=
  ⟨fun _ frame => (frame.length, 512), fun _ frames => frames⟩

/-- An RTP packet with a fragment of one byte. -/
def fragmentPacket (sequence header byte : UInt8) : Bytes :=
  [0x80, 0x60, 0, sequence, 0, 0, 0, 0, 0, 0, 0, 1, header, byte]

/-- The start, the middle and the last fragment of a frame. -/
theorem media_reassembled_three :
    ∃ s : MediaState,
      Runs.Run (Runs.Guarded (fun s e => s.Follows e.2) (step takesAll))
        (.opened true 2)
        [(10, fragmentPacket 1 0xC0 0x9C), (20, fragmentPacket 2 0x80 0x31),
          (30, fragmentPacket 3 0xA0 0x55)] s ∧
      s.handed.map Handed.bytes = [[0x9C, 0x31, 0x55]] ∧
      ∀ h ∈ s.handed, h.Exact := by
  have htaken : (List.foldlM
      (Runs.guarded (fun s (e : Nat × Bytes) => s.Follows e.2) (step takesAll))
      (MediaState.opened true 2)
      [(10, fragmentPacket 1 0xC0 0x9C), (20, fragmentPacket 2 0x80 0x31),
        (30, fragmentPacket 3 0xA0 0x55)]).map
        (fun s => s.handed.map Handed.bytes) =
      some [[0x9C, 0x31, 0x55]] := by decide
  obtain ⟨s, hs, hbytes⟩ := Option.map_eq_some_iff.mp htaken
  have hrun := Runs.Run.of_guarded hs
  exact ⟨s, hrun, hbytes, (media_reassembled takesAll true 2).2 _ s hrun⟩

/-- The last fragment of another frame is put behind a start, with two packets
lost between them. -/
theorem fragments_mixed :
    ¬∀ (env : MediaEnv) (packets : List (Nat × Bytes)) (s : MediaState),
      packets.foldlM (step env) (.opened true 2) = some s →
      ∀ h ∈ s.handed, h.Exact := by
  intro hall
  have htaken : (List.foldlM (step takesAll) (MediaState.opened true 2)
      [(10, fragmentPacket 1 0xC0 0x9C),
        (20, fragmentPacket 4 0xA0 0x55)]).map MediaState.handed =
      some [⟨[0x9C, 0x55],
        [⟨1, 0, [0xC0, 0x9C]⟩, ⟨4, 0, [0xA0, 0x55]⟩]⟩] := by decide
  obtain ⟨s, hs, hhanded⟩ := Option.map_eq_some_iff.mp htaken
  have hexact := hall takesAll _ s hs
    ⟨[0x9C, 0x55], [⟨1, 0, [0xC0, 0x9C]⟩, ⟨4, 0, [0xA0, 0x55]⟩]⟩
    (by rw [hhanded]; exact List.mem_singleton_self _)
  rcases hexact with ⟨p, hp, hplain, _⟩ | ⟨ps, hsub, ⟨hstarted, q, hq, hlast⟩,
    hbytes⟩
  · obtain rfl := Option.some.inj hp
    exact absurd hplain (by decide)
  · obtain ⟨hframe, p, hp, hstart⟩ := hstarted
    have hchoice : ps ∈ [[], [(⟨4, 0, [0xA0, 0x55]⟩ : Rtp)],
        [⟨1, 0, [0xC0, 0x9C]⟩],
        [⟨1, 0, [0xC0, 0x9C]⟩, ⟨4, 0, [0xA0, 0x55]⟩]] := by
      have hmem := List.mem_sublists'.mpr hsub
      exact hmem
    simp only [List.mem_cons, List.not_mem_nil, or_false] at hchoice
    rcases hchoice with rfl | rfl | rfl | rfl
    · exact hframe
    · obtain rfl := Option.some.inj hp
      exact absurd hstart (by decide)
    · obtain rfl := Option.some.inj hq
      exact absurd hlast (by decide)
    · exact absurd hframe.2.1 (by decide)

end Audiox.Bluetooth
