import Audiox.Bluetooth.Paired
import Audiox.Scenes.RoundTrip
import Mathlib

/-!
# The line of a paired device

What the reader makes of a line that the writer has written, as long as the
line is not cut within its markers.
-/

namespace Audiox.Bluetooth

open ByteCodec Config Scenes

/-! ## Words and numbers -/

/-- The scan of a word stops behind it. -/
theorem scanWord_append {word : Bytes} (hword : IsWord word) {max : Nat}
    (hlen : word.length ≤ max) (rest : Bytes) :
    scanWord max (word ++ chr ' ' :: rest) = some (word, chr ' ' :: rest) := by
  have hnot : ∀ c ∈ word, (!Config.isSpace c) = true := by
    intro c hc
    rw [isSpace_of_lt (hword.2 c hc)]
    rfl
  have hstart : (word ++ chr ' ' :: rest).dropWhile Config.isSpace =
      word ++ chr ' ' :: rest := by
    obtain ⟨c, tail, rfl⟩ := List.exists_cons_of_ne_nil hword.1
    rw [List.cons_append, List.dropWhile_cons_of_neg]
    rw [isSpace_of_lt (hword.2 c (by simp))]
    exact Bool.false_ne_true
  have htake : ((word ++ chr ' ' :: rest).take max).takeWhile
      (!Config.isSpace ·) = word := by
    rw [List.take_append, List.take_of_length_le hlen,
      List.takeWhile_append_of_pos hnot]
    cases max - word.length with
    | zero => rw [List.take_zero, List.takeWhile_nil, List.append_nil]
    | succ n =>
        rw [List.take_succ_cons, List.takeWhile_cons_of_neg (by decide),
          List.append_nil]
  rw [scanWord, hstart, htake, if_neg hword.1, List.drop_left' rfl]

theorem scanWord_blank (max : Nat) (s : Bytes) :
    scanWord max (chr ' ' :: s) = scanWord max s := by
  rw [scanWord, scanWord, List.dropWhile_cons_of_pos (by decide)]

theorem isWord_showDecimal (n : Nat) : IsWord (showDecimal n) := by
  refine ⟨showDecimal_ne_nil n, fun c hc => ?_⟩
  have hdigit := isDigit_bounds (isDigit_of_mem_showDecimal hc)
  rw [UInt8.lt_iff_toNat_lt]
  have h32 : (32 : UInt8).toNat = 32 := rfl
  omega

/-- The scan of a number that a byte can hold. -/
theorem scanUnsigned_showDecimal (n : UInt8) (rest : Bytes) :
    scanUnsigned (chr ' ' :: (showDecimal n.toNat ++ chr ' ' :: rest)) =
      some (n.toNat, chr ' ' :: rest) := by
  have hdigits : ∀ c ∈ showDecimal n.toNat, isDigit c = true :=
    fun c => isDigit_of_mem_showDecimal
  have hskip : (chr ' ' :: (showDecimal n.toNat ++ chr ' ' :: rest)).dropWhile
      Config.isSpace = showDecimal n.toNat ++ chr ' ' :: rest := by
    rw [List.dropWhile_cons_of_pos (by decide)]
    obtain ⟨c, tail, heq⟩ :=
      List.exists_cons_of_ne_nil (showDecimal_ne_nil n.toNat)
    rw [heq, List.cons_append, List.dropWhile_cons_of_neg]
    simp [(isBlank_of_isDigit (hdigits c (by simp [heq]))).2.2]
  have hsign : takeSign (showDecimal n.toNat ++ chr ' ' :: rest) =
      (false, showDecimal n.toNat ++ chr ' ' :: rest) := by
    obtain ⟨c, tail, heq⟩ :=
      List.exists_cons_of_ne_nil (showDecimal_ne_nil n.toNat)
    have hc := hdigits c (by simp [heq])
    rw [heq, List.cons_append, takeSign,
      if_neg (isDigit_other hc (.inl (by decide))),
      if_neg (isDigit_other hc (.inl (by decide)))]
  have htake : (showDecimal n.toNat ++ chr ' ' :: rest).takeWhile isDigit =
      showDecimal n.toNat := by
    rw [List.takeWhile_append_of_pos hdigits,
      List.takeWhile_cons_of_neg (by decide), List.append_nil]
  have hdrop : (showDecimal n.toNat ++ chr ' ' :: rest).dropWhile isDigit =
      chr ' ' :: rest := by
    rw [List.dropWhile_append_of_pos hdigits,
      List.dropWhile_cons_of_neg (by decide)]
  have hvalue : unsignedValue false (showDecimal n.toNat) = n.toNat := by
    have hlt := n.toNat_lt
    rw [unsignedValue, decimal_showDecimal]
    simp only [Bool.false_eq_true, if_false]
    omega
  rw [scanUnsigned, hskip, hsign]
  simp only [htake, hdrop, if_neg (showDecimal_ne_nil n.toNat), hvalue]

/-! ## Addresses and keys -/

theorem hexUpper_spec (c : UInt8) :
    digitValue (hexUpper (c >>> 4)) = some (c >>> 4) ∧
      digitValue (hexUpper (c &&& 15)) = some (c &&& 15) ∧
      (32 : UInt8) < hexUpper (c >>> 4) ∧ (32 : UInt8) < hexUpper (c &&& 15) ∧
      hexUpper (c >>> 4) ≠ chr '#' := by
  have hall : ∀ n < 256, ∀ d : UInt8, d = UInt8.ofNat n →
      digitValue (hexUpper (d >>> 4)) = some (d >>> 4) ∧
      digitValue (hexUpper (d &&& 15)) = some (d &&& 15) ∧
      (32 : UInt8) < hexUpper (d >>> 4) ∧ (32 : UInt8) < hexUpper (d &&& 15) ∧
      hexUpper (d >>> 4) ≠ chr '#' := by
    simp only [forall_eq]
    decide +kernel
  exact hall c.toNat c.toNat_lt c UInt8.ofNat_toNat.symm

theorem readHexByte_hexUpper (c : UInt8) :
    readHexByte (hexUpper (c >>> 4)) (hexUpper (c &&& 15)) = some c := by
  obtain ⟨hhigh, hlow, -⟩ := hexUpper_spec c
  rw [readHexByte, hhigh, hlow]
  exact congrArg some (hexDigits_spec c).2.2.1

theorem readColonHex_colonHex {bytes : Bytes} (hne : bytes ≠ []) :
    readColonHex (colonHex bytes) = some bytes := by
  induction bytes with
  | nil => exact absurd rfl hne
  | cons c rest ih =>
      cases rest with
      | nil => rw [colonHex, hexByte, readColonHex, readHexByte_hexUpper]; rfl
      | cons d rest =>
          rw [colonHex, hexByte, List.cons_append, List.cons_append,
            List.nil_append, readColonHex, if_pos rfl, readHexByte_hexUpper,
            ih (List.cons_ne_nil _ _)]
          · exact List.cons_ne_nil _ _

theorem parseAddress_formatAddress (address : Address) :
    parseAddress (formatAddress address) = some address := by
  have hne : address.b.reverse ≠ [] := by
    intro h
    have hlen := congrArg List.length h
    rw [List.length_reverse, address.length] at hlen
    simp at hlen
  rw [parseAddress, formatAddress, readColonHex_colonHex hne]
  simp [address.length]

theorem length_colonHex (c : UInt8) (rest : Bytes) :
    (colonHex (c :: rest)).length = 3 * rest.length + 2 := by
  induction rest generalizing c with
  | nil => rfl
  | cons d rest ih =>
      rw [colonHex, List.length_append, List.length_cons, ih, List.length_cons,
        hexByte]
      · simp only [List.length_cons, List.length_nil]
        omega
      · exact List.cons_ne_nil _ _

theorem lt_of_mem_colonHex {bytes : Bytes} {c : UInt8}
    (hc : c ∈ colonHex bytes) : 32 < c := by
  have hbyte : ∀ d : UInt8, ∀ c ∈ hexByte d, 32 < c := by
    intro d c hc
    obtain ⟨-, -, hhigh, hlow, -⟩ := hexUpper_spec d
    rw [hexByte, List.mem_cons, List.mem_singleton] at hc
    rcases hc with rfl | rfl
    · exact hhigh
    · exact hlow
  induction bytes with
  | nil => simp [colonHex] at hc
  | cons d rest ih =>
      cases rest with
      | nil => exact hbyte d c hc
      | cons e rest =>
          rw [colonHex, List.mem_append, List.mem_cons] at hc
          · rcases hc with hc | rfl | hc
            · exact hbyte d c hc
            · decide
            · exact ih hc
          · exact List.cons_ne_nil _ _

theorem length_formatAddress (address : Address) :
    (formatAddress address).length = 17 := by
  have hlen : address.b.reverse.length = 6 := by
    rw [List.length_reverse, address.length]
  rw [formatAddress]
  cases hb : address.b.reverse with
  | nil => simp [hb] at hlen
  | cons c rest =>
      rw [hb, List.length_cons] at hlen
      rw [length_colonHex]
      omega

theorem isWord_formatAddress (address : Address) :
    IsWord (formatAddress address) := by
  constructor
  · intro h
    have hlen := length_formatAddress address
    rw [h] at hlen
    simp at hlen
  · exact fun c => lt_of_mem_colonHex

theorem keyBytes_encode (bytes : Bytes) :
    keyBytes (encode bytes) = some bytes := by
  induction bytes with
  | nil => rfl
  | cons c bytes ih =>
      obtain ⟨hhigh, hlow, hjoin, -⟩ := hexDigits_spec c
      have hbyte : keyByte (hexDigit (c >>> 4)) (hexDigit (c &&& 15)) =
          some c := by
        rw [keyByte, readHexByte, hhigh, hlow]
        exact congrArg some hjoin
      rw [encode_cons, keyBytes, hbyte, ih]

theorem parseHexKey_encode (key : LinkKey) :
    parseHexKey (encode key.bytes) = some key := by
  rw [parseHexKey, keyBytes_encode]
  simp [key.length]

theorem length_encode_key (key : LinkKey) : (encode key.bytes).length = 32 := by
  rw [length_encode, key.length]

theorem isWord_encode_key (key : LinkKey) : IsWord (encode key.bytes) := by
  apply isWord_encode
  intro h
  have hlen := key.length
  rw [h] at hlen
  simp at hlen

/-- The fields in front of the name are read as they were written. -/
theorem readFields_lineHead (device : BluetoothDevice) (rest : Bytes) :
    readFields (lineHead device ++ rest) =
      some (formatAddress device.address, encode device.linkKey.bytes,
        device.linkKeyType.toNat, rest.dropWhile Config.isSpace) := by
  have haddress := scanWord_append (isWord_formatAddress device.address)
    (length_formatAddress device.address).le
    (encode device.linkKey.bytes ++ chr ' ' ::
      (showDecimal device.linkKeyType.toNat ++ chr ' ' :: rest))
  have hkey := scanWord_append (isWord_encode_key device.linkKey)
    (length_encode_key device.linkKey).le
    (showDecimal device.linkKeyType.toNat ++ chr ' ' :: rest)
  have hhead : lineHead device ++ rest =
      formatAddress device.address ++ chr ' ' ::
        (encode device.linkKey.bytes ++ chr ' ' ::
          (showDecimal device.linkKeyType.toNat ++ chr ' ' :: rest)) := by
    simp only [lineHead, List.append_assoc, List.cons_append, List.nil_append]
  rw [hhead, readFields, haddress]
  dsimp only
  rw [scanWord_blank, hkey]
  dsimp only
  rw [scanUnsigned_showDecimal]
  dsimp only
  rw [List.dropWhile_cons_of_pos (by decide)]

/-! ## Names -/

/-- What a name is made of. -/
structure NameOk (name : Bytes) : Prop where
  chars : ∀ c ∈ name, 32 ≤ c ∧ c ≠ chr '"' ∧ c ≠ chr '\\'
  last : name.getLast? ≠ some (chr ' ')
  length : name.length ≤ btNameMax - 1

/-- These are the names that `sanitizeName` can produce. -/
theorem nameOk_iff {name : Bytes} :
    NameOk name ↔ ∃ text, name = sanitizeName text btNameMax := by
  constructor
  · intro h
    refine ⟨name, ?_⟩
    have hzero : name.takeWhile (· ≠ 0) = name := by
      refine List.takeWhile_eq_self_iff.mpr fun c hc => ?_
      have hle := (h.chars c hc).1
      simp only [ne_eq, decide_not, Bool.not_eq_true', decide_eq_false_iff_not]
      rintro rfl
      exact absurd hle (by decide)
    have hmap : name.map (fun c =>
        if c ≥ 0x20 ∧ c ≠ chr '"' ∧ c ≠ chr '\\' then c else chr ' ') =
          name := by
      conv_rhs => rw [← List.map_id name]
      exact List.map_congr_left fun c hc => if_pos (h.chars c hc)
    have hlast : name.rdropWhile (· == chr ' ') = name := by
      rw [List.rdropWhile_eq_self_iff]
      intro hne hblank
      apply h.last
      rw [List.getLast?_eq_getLast_of_ne_nil hne]
      exact congrArg some (beq_iff_eq.mp hblank)
    rw [sanitizeName, hzero, List.take_of_length_le h.length, hmap, hlast]
  · rintro ⟨text, rfl⟩
    rw [sanitizeName]
    have hpre := List.rdropWhile_prefix (· == chr ' ')
      (((text.takeWhile (· ≠ 0)).take (btNameMax - 1)).map fun c =>
        if c ≥ 0x20 ∧ c ≠ chr '"' ∧ c ≠ chr '\\' then c else chr ' ')
    constructor
    · intro c hc
      obtain ⟨d, -, rfl⟩ := List.mem_map.mp (hpre.subset hc)
      split
      case isTrue hd => exact hd
      case isFalse => decide
    · intro hblank
      have hne := List.ne_nil_of_mem (List.mem_of_getLast? hblank)
      apply List.rdropWhile_last_not _ _ hne
      rw [List.getLast?_eq_getLast_of_ne_nil hne] at hblank
      exact beq_iff_eq.mpr (Option.some.inj hblank)
    · refine hpre.length_le.trans ?_
      rw [List.length_map]
      exact List.length_take_le _ _

theorem written_chars {name : Bytes} (h : NameOk name) :
    ∀ c ∈ writtenName name, 32 ≤ c := by
  rw [writtenName]
  split
  · decide +kernel
  · exact fun c hc => (h.chars c hc).1

theorem length_writtenName_le {name : Bytes} (h : NameOk name) :
    (writtenName name).length ≤ 248 := by
  rw [writtenName]
  split
  · decide
  · exact h.length

/-- A written name ends with something else than a blank. -/
theorem written_last {name : Bytes} (h : NameOk name) :
    ∃ c ∈ writtenName name, Config.isSpace c = false := by
  rw [writtenName]
  split
  case isTrue => exact ⟨chr '-', by decide, by decide⟩
  case isFalse hne =>
    refine ⟨name.getLast hne, List.getLast_mem hne, ?_⟩
    have hlow := (h.chars _ (List.getLast_mem hne)).1
    have hblank : name.getLast hne ≠ 32 := by
      intro heq
      exact h.last (by rw [List.getLast?_eq_getLast_of_ne_nil hne, heq]; rfl)
    apply isSpace_of_lt
    rw [UInt8.lt_iff_le_and_ne]
    exact ⟨hlow, hblank.symm⟩

/-- The reader drops the blanks in front of a name only. -/
theorem dropWhile_written {name : Bytes} (h : NameOk name) (rest : Bytes) :
    (writtenName name ++ rest).dropWhile Config.isSpace =
      (writtenName name).dropWhile Config.isSpace ++ rest := by
  have hne : (writtenName name).dropWhile Config.isSpace ≠ [] := by
    intro hnil
    obtain ⟨c, hc, hspace⟩ := written_last h
    rw [List.dropWhile_eq_nil_iff.mp hnil c hc] at hspace
    simp at hspace
  rw [List.dropWhile_append, if_neg]
  simpa using hne

/-- The markers are found behind the name. -/
theorem splitAtText_append {pattern front rest : Bytes}
    (hpattern : pattern <+: rest) (hhead : ∀ c ∈ front, pattern.head? ≠ some c)
    (hne : pattern ≠ []) :
    splitAtText pattern (front ++ rest) = some (front, rest) := by
  induction front with
  | nil =>
      cases rest with
      | nil => exact absurd (List.prefix_nil.mp hpattern) hne
      | cons c rest => rw [List.nil_append, splitAtText, if_pos hpattern]
  | cons c front ih =>
      have hnot : ¬pattern <+: c :: (front ++ rest) := by
        intro hpre
        cases pattern with
        | nil => exact hne rfl
        | cons d pattern =>
            have heq := (List.cons_prefix_cons.mp hpre).1
            exact hhead c (by simp) (by rw [heq]; rfl)
      rw [List.cons_append, splitAtText, if_neg hnot,
        ih fun d hd => hhead d (List.mem_cons_of_mem _ hd)]
      rfl

/-! ## Markers -/

theorem length_lineTail (autoConnect audioSource audioSink : Bool) :
    (lineTail autoConnect audioSource audioSink).length = 23 := by
  revert autoConnect audioSource audioSink
  decide

theorem readMarker_lineTail (autoConnect audioSource audioSink : Bool) :
    readMarker (lineTail autoConnect audioSource audioSink) =
      some ⟨autoConnect, audioSource, audioSink⟩ := by
  revert autoConnect audioSource audioSink
  decide

/-- Markers that are cut are none. -/
theorem readMarker_cut (autoConnect audioSource audioSink : Bool) {n : Nat}
    (hlow : 9 ≤ n) (hhigh : n < 23) :
    readMarker ((lineTail autoConnect audioSource audioSink).take n) = none := by
  have hall : ∀ n < 23, 9 ≤ n → ∀ autoConnect audioSource audioSink,
      readMarker ((lineTail autoConnect audioSource audioSink).take n) =
        none := by decide
  exact hall n hhigh hlow _ _ _

theorem prefix_marker (autoConnect audioSource audioSink : Bool) {n : Nat}
    (hlow : 9 ≤ n) :
    ascii "\tAUTO=" <+:
      (lineTail autoConnect audioSource audioSink).take n := by
  have hnine : ∀ autoConnect audioSource audioSink, ascii "\tAUTO=" <+:
      (lineTail autoConnect audioSource audioSink).take 9 := by decide
  exact (hnine _ _ _).trans (List.take_prefix_take_left hlow)

/-- The rest of a line that has been cut is no device. -/
theorem loadLine_rest (autoConnect audioSource audioSink : Bool) {n : Nat}
    (hlow : 9 ≤ n) (hhigh : n ≤ 23) :
    loadLine ((lineTail autoConnect audioSource audioSink).drop n ++
      [chr '\n']) = none := by
  have hall : ∀ n < 24, 9 ≤ n → ∀ autoConnect audioSource audioSink,
      loadLine ((lineTail autoConnect audioSource audioSink).drop n ++
        [chr '\n']) = none := by decide
  exact hall n (Nat.lt_succ_of_le hhigh) hlow _ _ _

/-! ## Lines -/

theorem length_lineHead (device : BluetoothDevice) :
    (lineHead device).length =
      52 + (showDecimal device.linkKeyType.toNat).length := by
  rw [lineHead]
  simp only [List.length_append, List.length_cons, List.length_nil,
    length_formatAddress, length_encode_key]
  omega

theorem length_lineHead_le (device : BluetoothDevice) :
    (lineHead device).length ≤ 55 := by
  have hlt := device.linkKeyType.toNat_lt
  have hdigits := length_showDecimal_le (n := device.linkKeyType.toNat)
    (k := 3) (by decide) (by omega)
  rw [length_lineHead]
  omega

/-- How many bytes of the markers the buffer has room for. -/
def room (device : BluetoothDevice) : Nat :=
  312 - ((lineHead device).length + (writtenName device.name).length)

theorem room_ge {device : BluetoothDevice} (h : NameOk device.name) :
    9 ≤ room device := by
  have hhead := length_lineHead_le device
  have hname := length_writtenName_le h
  rw [room]
  omega

/-- The device that is read back from a line. -/
def readBack (device : BluetoothDevice) : BluetoothDevice :=
  loadedDevice device.address device.linkKey device.linkKeyType.toNat
    (readName ((writtenName device.name).dropWhile Config.isSpace ++
      (lineTail device.autoConnect device.audioSource
        device.audioSink).take (room device)))

/-- What is left of the markers after `room` bytes. -/
theorem take_deviceLine {device : BluetoothDevice} (h : NameOk device.name) :
    (deviceLine device).take 312 =
      lineHead device ++ (writtenName device.name ++
        (lineTail device.autoConnect device.audioSource
          device.audioSink).take (room device)) := by
  have hhead := length_lineHead_le device
  have hname := length_writtenName_le h
  rw [deviceLine, List.take_append, List.take_of_length_le (by omega),
    List.take_append, List.take_of_length_le (by omega), room, Nat.sub_sub]

theorem drop_deviceLine {device : BluetoothDevice} (h : NameOk device.name) :
    (deviceLine device).drop 312 =
      (lineTail device.autoConnect device.audioSource
        device.audioSink).drop (room device) := by
  have hhead := length_lineHead_le device
  have hname := length_writtenName_le h
  rw [deviceLine, List.drop_append, List.drop_of_length_le (by omega),
    List.drop_append, List.drop_of_length_le (by omega), room, Nat.sub_sub]
  rfl

/-- The bytes of a line. -/
theorem deviceLine_chars {device : BluetoothDevice} (h : NameOk device.name) :
    ∀ c ∈ deviceLine device, c = 9 ∨ 32 ≤ c := by
  have htail : ∀ autoConnect audioSource audioSink,
      ∀ c ∈ lineTail autoConnect audioSource audioSink, c = 9 ∨ 32 ≤ c := by
    decide +kernel
  have hword : ∀ {word : Bytes}, IsWord word → ∀ c ∈ word, 32 ≤ c :=
    fun hword c hc => UInt8.le_of_lt (hword.2 c hc)
  intro c hc
  simp only [deviceLine, lineHead, List.mem_append, List.mem_cons,
    List.not_mem_nil, or_false] at hc
  rcases hc with (hc | rfl | hc | rfl | hc | rfl) | hc | hc
  · exact .inr (hword (isWord_formatAddress _) c hc)
  · exact .inr (by decide)
  · exact .inr (hword (isWord_encode_key _) c hc)
  · exact .inr (by decide)
  · exact .inr (hword (isWord_showDecimal _) c hc)
  · exact .inr (by decide)
  · exact .inr (written_chars h c hc)
  · exact htail _ _ _ c hc

theorem line_end_notMem {line : Bytes} (h : ∀ c ∈ line, c = 9 ∨ 32 ≤ c)
    {d : UInt8} (hd : d < 32) (hne : d ≠ 9) : d ∉ line := by
  intro hmem
  rcases h d hmem with heq | hle
  · exact hne heq
  · exact absurd hd (UInt8.not_lt.mpr hle)

/-- A line that is read up to the end of the buffer, or as a whole. -/
theorem loadLine_deviceLine {device : BluetoothDevice}
    (h : NameOk device.name) {stop : Bytes}
    (hstop : stop = [] ∨ stop = [chr '\n']) :
    loadLine ((deviceLine device).take 312 ++ stop) = some (readBack device) := by
  have hchars : ∀ c ∈ (deviceLine device).take 312, c = 9 ∨ 32 ≤ c :=
    fun c hc => deviceLine_chars h c (List.mem_of_mem_take hc)
  have hcut : ((deviceLine device).take 312 ++ stop).takeWhile
      (fun c => c ≠ chr '\r' ∧ c ≠ chr '\n') =
        (deviceLine device).take 312 := by
    rw [List.takeWhile_append_of_pos]
    · rcases hstop with rfl | rfl
      · rw [List.takeWhile_nil, List.append_nil]
      · rw [List.takeWhile_cons_of_neg (by decide), List.append_nil]
    · intro c hc
      have hcr := line_end_notMem hchars (d := chr '\r') (by decide) (by decide)
      have hnl := line_end_notMem hchars (d := chr '\n') (by decide) (by decide)
      simp only [ne_eq, Bool.decide_and, decide_not, Bool.and_eq_true,
        Bool.not_eq_true', decide_eq_false_iff_not]
      exact ⟨fun heq => hcr (heq ▸ hc), fun heq => hnl (heq ▸ hc)⟩
  rw [loadLine, hcut, take_deviceLine h, readFields_lineHead,
    dropWhile_written h]
  dsimp only
  rw [parseAddress_formatAddress, parseHexKey_encode]
  rfl

end Audiox.Bluetooth
