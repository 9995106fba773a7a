import Mathlib.Algebra.GroupWithZero.Nat
import MulticastRelay.Frame.HopCount

/-! # Header checksums under a lowered hop count

The checksum of an IPv4 header is the complement of a one's complement sum over its words. Lowering
the time to live adjusts the checksum by what one word changed, without a look at the others. Sums that
are not zero are equal as soon as they agree modulo 65535, and this carries all of it: zero, the one
number with two forms, never comes up in a header whose hop count can be lowered.
-/
namespace MulticastRelay

/-! ## One's complement sums -/

namespace HopCount

/-- The one's complement sum of sixteen-bit words: every carry is added back at the low end. -/
def onesSum (ws : List Nat) : Nat := ws.foldl (fun s w => fold (s + w)) 0

theorem fold_mod (s : Nat) : fold s % 65535 = s % 65535 := by
  unfold fold
  omega

theorem fold_le {s : Nat} (h : s ≤ 131070) : fold s ≤ 65535 := by
  unfold fold
  omega

theorem fold_pos {s : Nat} (h : 0 < s) : 0 < fold s := by
  unfold fold
  omega

theorem foldl_spec {ws : List Nat} (hw : ∀ w ∈ ws, w ≤ 65535) {s : Nat} (hs : s ≤ 65535) :
    ws.foldl (fun s w => fold (s + w)) s ≤ 65535 ∧
      ws.foldl (fun s w => fold (s + w)) s % 65535 = (s + ws.sum) % 65535 ∧
      (0 < s + ws.sum → 0 < ws.foldl (fun s w => fold (s + w)) s) := by
  induction ws generalizing s with
  | nil => exact ⟨hs, rfl, id⟩
  | cons w ws ih =>
    obtain ⟨hw, hws⟩ := List.forall_mem_cons.1 hw
    obtain ⟨hle, hmod, hpos⟩ := ih hws (fold_le (s := s + w) (by omega))
    have hm := fold_mod (s + w)
    rw [List.foldl_cons, List.sum_cons]
    refine ⟨hle, by omega, fun h => hpos ?_⟩
    by_cases hz : 0 < s + w
    · have hf := fold_pos hz
      omega
    · omega

/-- A sum that is not zero is the representative of its residue in 1, …, 65535. -/
theorem onesSum_eq {ws : List Nat} (hw : ∀ w ∈ ws, w ≤ 65535) (hpos : 0 < ws.sum) :
    onesSum ws = (ws.sum - 1) % 65535 + 1 := by
  obtain ⟨hle, hmod, hp⟩ := foldl_spec hw (Nat.zero_le 65535)
  have hp := hp (by omega)
  unfold onesSum
  omega

theorem onesSum_congr {vs ws : List Nat} (hv : ∀ v ∈ vs, v ≤ 65535) (hw : ∀ w ∈ ws, w ≤ 65535)
    (hvs : 0 < vs.sum) (hws : 0 < ws.sum) (h : vs.sum % 65535 = ws.sum % 65535) :
    onesSum vs = onesSum ws := by
  rw [onesSum_eq hv hvs, onesSum_eq hw hws]
  omega

theorem complement_eq_iff {c s : Nat} (hs : s ≤ 65535) :
    c = complement s ↔ c ≤ 65535 ∧ c + s = 65535 := by
  unfold complement
  omega

/-- The checksum that goes with some words is told by its residue: it is never 65535. -/
theorem eq_complement_onesSum_iff {c : Nat} {ws : List Nat} (hw : ∀ w ∈ ws, w ≤ 65535)
    (hpos : 0 < ws.sum) : c = complement (onesSum ws) ↔ c < 65535 ∧ (c + ws.sum) % 65535 = 0 := by
  rw [onesSum_eq hw hpos, complement_eq_iff (by omega)]
  omega

/-- Two folds bring the sum of three words back to one word, so that nothing is cut off. -/
theorem updateChecksum_add (check old : Nat) {new : Nat} (hn : new ≤ 65535) :
    updateChecksum check old new +
      fold (fold (complement check + complement old + new)) = 65535 := by
  have hsum : fold (complement check + complement old + new) ≤ 131070 := by
    unfold fold complement
    omega
  have hfold := fold_le hsum
  unfold updateChecksum
  rw [Nat.mod_eq_of_lt (by omega)]
  generalize fold (fold (complement check + complement old + new)) = s at hfold ⊢
  unfold complement
  omega

/-- The update takes the old word out of the sum and puts the new one in. -/
theorem updateChecksum_mod {check old new : Nat} (hc : check ≤ 65535) (ho : old ≤ 65535)
    (hn : new ≤ 65535) :
    (updateChecksum check old new + new) % 65535 = (check + old) % 65535 := by
  have hadd := updateChecksum_add check old hn
  have hmod := (fold_mod (fold (complement check + complement old + new))).trans (fold_mod _)
  generalize fold (fold (complement check + complement old + new)) = s at hadd hmod
  unfold complement at hmod
  omega

theorem updateChecksum_lt (check old : Nat) {new : Nat} (hpos : 0 < new) (hn : new ≤ 65535) :
    updateChecksum check old new < 65535 := by
  have hadd := updateChecksum_add check old hn
  have hfold := fold_pos (fold_pos (s := complement check + complement old + new) (by omega))
  omega

end HopCount

/-! ## Words of a header -/

namespace Frame

/-- Octets read as words, two by two. -/
def words : List UInt8 → List Nat
  | [] | [_] => []
  | hi :: lo :: rest => word hi lo :: words rest

/-- The octets of an IPv4 header that is so long. -/
def headerOctets (f : Frame) (len : Nat) : List UInt8 := (f.drop headerLength).take len

/-- The words of the header add up, checksum included. -/
def HeaderAddsUp (f : Frame) (len : Nat) : Prop :=
  HopCount.onesSum (words (f.headerOctets len)) = 65535

instance (f : Frame) (len : Nat) : Decidable (f.HeaderAddsUp len) := inferInstanceAs (Decidable (_ = _))

/-- The checksum computed from the other words of the header; its own is the sixth. -/
def freshChecksum (f : Frame) (len : Nat) : Nat :=
  HopCount.complement (HopCount.onesSum ((words (f.headerOctets len)).eraseIdx 5))

theorem word_le (hi lo : UInt8) : word hi lo ≤ 65535 := by
  have hhi := hi.toNat_lt
  have hlo := lo.toNat_lt
  unfold word
  omega

theorem word_octets {w : Nat} (h : w ≤ 65535) :
    word (HopCount.highOctet w) (HopCount.lowOctet w) = w := by
  unfold word HopCount.highOctet HopCount.lowOctet
  rw [UInt8.toNat_ofNat', UInt8.toNat_ofNat']
  omega

theorem words_le (octets : List UInt8) : ∀ w ∈ words octets, w ≤ 65535 := by
  fun_induction words octets with
  | case1 | case2 => exact List.forall_mem_nil _
  | case3 hi lo rest ih => exact List.forall_mem_cons.2 ⟨word_le hi lo, ih⟩

theorem words_append {xs : List UInt8} (h : 2 ∣ xs.length) (ys : List UInt8) :
    words (xs ++ ys) = words xs ++ words ys := by
  fun_induction words xs with
  | case1 => rfl
  | case2 => simp at h
  | case3 hi lo rest ih =>
    rw [List.length_cons, List.length_cons] at h
    rw [List.cons_append, List.cons_append, words, ih (by omega), List.cons_append]

theorem length_words (octets : List UInt8) : (words octets).length = octets.length / 2 := by
  fun_induction words octets with
  | case1 => rfl
  | case2 => simp
  | case3 hi lo rest ih =>
    rw [List.length_cons, List.length_cons, List.length_cons, ih]
    omega

/-! ## The fields that change -/

variable {f : Frame} {lead rest : List UInt8} {ttl protocol hi lo : UInt8} {len : Nat}

theorem not_le_one_iff {x : UInt8} : ¬x ≤ 1 ↔ 2 ≤ x := by
  rw [UInt8.le_iff_toNat_le, UInt8.le_iff_toNat_le]
  show ¬x.toNat ≤ 1 ↔ 2 ≤ x.toNat
  omega

theorem toNat_sub_one {x : UInt8} (h : 2 ≤ x) : (x - 1).toNat + 1 = x.toNat := by
  rw [UInt8.le_iff_toNat_le] at h
  have h2 : 2 ≤ x.toNat := h
  have h1 : (1 : UInt8) ≤ x := UInt8.le_iff_toNat_le.2 (show 1 ≤ x.toNat by omega)
  rw [UInt8.toNat_sub_of_le _ _ h1]
  exact Nat.sub_add_cancel (show 1 ≤ x.toNat by omega)

/-- The word with a count that was lowered is not zero yet. -/
theorem word_pos (protocol : UInt8) (h : 2 ≤ ttl) :
    0 < word (ttl - 1) protocol ∧ 0 < word ttl protocol := by
  have hsub := toNat_sub_one h
  rw [UInt8.le_iff_toNat_le] at h
  have h2 : 2 ≤ ttl.toNat := h
  unfold word
  omega

/-- A frame laid out about the four octets from its time to live to its checksum. -/
theorem exists_layout (h : minimumIPv4 ≤ f.length) :
    ∃ lead ttl protocol hi lo rest, lead.length = timeToLiveAt ∧
      f = lead ++ ttl :: protocol :: hi :: lo :: rest := by
  have hlen : 34 ≤ f.length := h
  refine ⟨f.take timeToLiveAt, f[22], f[23], f[24], f[25], f.drop 26, ?_, ?_⟩
  · rw [List.length_take]
    exact Nat.min_eq_left (by simp only [timeToLiveAt, headerLength]; omega)
  · rw [List.getElem_cons_drop, List.getElem_cons_drop, List.getElem_cons_drop,
      List.getElem_cons_drop]
    exact (List.take_append_drop 22 f).symm

theorem lowerTimeToLive_layout (hl : lead.length = timeToLiveAt) (ht : 2 ≤ ttl) :
    lowerTimeToLive (lead ++ ttl :: protocol :: hi :: lo :: rest) =
      let sum := HopCount.updateChecksum (word hi lo) (word ttl protocol) (word (ttl - 1) protocol)
      (.lowered (ttl - 1), lead ++ (ttl - 1) :: protocol :: HopCount.highOctet sum ::
        HopCount.lowOctet sum :: rest) := by
  have hlead : lead.length = 22 := hl
  have hlive : ¬ttl ≤ 1 := not_le_one_iff.2 ht
  unfold lowerTimeToLive
  simp only [timeToLiveAt, checksumAt, headerLength, List.getD_eq_getElem?_getD,
    List.getElem?_append_right, List.set_append_right, hlead, Nat.reduceAdd, Nat.reduceLeDiff,
    Nat.reduceSub]
  simp [hlive]

/-- The header from the layout: four words ahead of the one with the time to live, which the checksum
follows. -/
theorem words_headerOctets (hl : lead.length = timeToLiveAt) (h : 20 ≤ len) :
    words (headerOctets (lead ++ ttl :: protocol :: hi :: lo :: rest) len) =
      words (lead.drop headerLength) ++
        word ttl protocol :: word hi lo :: words (rest.take (len - 12)) := by
  have hlead : lead.length = 22 := hl
  obtain ⟨k, rfl⟩ := Nat.exists_eq_add_of_le h
  have hoctets : headerOctets (lead ++ ttl :: protocol :: hi :: lo :: rest) (20 + k) =
      lead.drop headerLength ++ ttl :: protocol :: hi :: lo :: rest.take (20 + k - 12) := by
    unfold headerOctets headerLength
    rw [List.drop_append_of_le_length (by omega), List.take_append, List.length_drop, hlead,
      List.take_of_length_le (by rw [List.length_drop]; omega)]
    have h12 : 20 + k - (22 - 14) = 8 + k + 4 := by omega
    have h8 : 20 + k - 12 = 8 + k := by omega
    rw [h12, h8]
    rfl
  have heven : 2 ∣ (lead.drop headerLength).length := by
    rw [List.length_drop, hlead]
    exact ⟨4, rfl⟩
  rw [hoctets, words_append heven]
  rfl

theorem eraseIdx_checksum (hl : lead.length = timeToLiveAt) (w check : Nat) (ws : List Nat) :
    (words (lead.drop headerLength) ++ w :: check :: ws).eraseIdx 5 =
      words (lead.drop headerLength) ++ w :: ws := by
  have hlen : (words (lead.drop headerLength)).length = 4 := by
    rw [length_words, List.length_drop, hl]
    rfl
  rw [List.eraseIdx_append_of_length_le (by omega), hlen]
  rfl

/-- Two layouts that differ in the word with the time to live and make up for it in the checksum. -/
theorem headerAddsUp_iff {ttl' hi' lo' : UInt8} (hl : lead.length = timeToLiveAt) (h : 20 ≤ len)
    (hw : 0 < word ttl protocol) (hw' : 0 < word ttl' protocol)
    (hs : (word hi' lo' + word ttl' protocol) % 65535 = (word hi lo + word ttl protocol) % 65535) :
    HeaderAddsUp (lead ++ ttl' :: protocol :: hi' :: lo' :: rest) len ↔
      HeaderAddsUp (lead ++ ttl :: protocol :: hi :: lo :: rest) len := by
  unfold HeaderAddsUp
  rw [HopCount.onesSum_congr (words_le _) (words_le _)]
  all_goals simp only [words_headerOctets hl h, List.sum_append, List.sum_cons]
  · omega
  · omega
  · omega

theorem eq_freshChecksum_iff {c : Nat} (hl : lead.length = timeToLiveAt) (h : 20 ≤ len)
    (hw : 0 < word ttl protocol) :
    c = freshChecksum (lead ++ ttl :: protocol :: hi :: lo :: rest) len ↔
      c < 65535 ∧ (c + ((words (lead.drop headerLength)).sum + (word ttl protocol +
        (words (rest.take (len - 12))).sum))) % 65535 = 0 := by
  have hle : ∀ w ∈ words (lead.drop headerLength) ++ word ttl protocol ::
      words (rest.take (len - 12)), w ≤ 65535 := by
    intro w hw
    rcases List.mem_append.1 hw with hw | hw
    · exact words_le _ w hw
    · rcases List.mem_cons.1 hw with rfl | hw
      · exact word_le ttl protocol
      · exact words_le _ w hw
  unfold freshChecksum
  rw [words_headerOctets hl h, eraseIdx_checksum hl, HopCount.eq_complement_onesSum_iff hle]
  all_goals simp only [List.sum_append, List.sum_cons]
  omega

/-! ## Inside the frame -/

/-- The frame with an octet replaced, if it reaches that far. -/
def store? (f : Frame) (i : Nat) (octet : UInt8) : Option Frame :=
  if i < f.length then some (f.set i octet) else none

/-- Lowers an IPv4 time to live, and gives up at the first octet outside the frame. -/
def lowerTimeToLive? (f : Frame) : Option (HopCount × Frame) := do
  let ttl ← f[timeToLiveAt]?
  if ttl ≤ 1 then return (.expired, f)
  let protocol ← f[timeToLiveAt + 1]?
  let check ← f.word? checksumAt
  let sum := HopCount.updateChecksum check (word ttl protocol) (word (ttl - 1) protocol)
  let f ← f.store? timeToLiveAt (ttl - 1)
  let f ← f.store? checksumAt (HopCount.highOctet sum)
  let f ← f.store? (checksumAt + 1) (HopCount.lowOctet sum)
  return (.lowered (ttl - 1), f)

/-- Lowers an IPv6 hop limit, and gives up at an octet outside the frame. -/
def lowerHopLimit? (f : Frame) : Option (HopCount × Frame) := do
  let hops ← f[hopLimitAt]?
  if hops ≤ 1 then return (.expired, f)
  return (.lowered (hops - 1), ← f.store? hopLimitAt (hops - 1))

/-- Lowers the hop count of an IP frame, and gives up at the first octet outside the frame. -/
def lowerHopCount? (f : Frame) : Option (HopCount × Frame) :=
  if f.etherType? = some typeIPv4 ∧ minimumIPv4 ≤ f.length then f.lowerTimeToLive?
  else if f.etherType? = some typeIPv6 ∧ minimumIPv6 ≤ f.length then f.lowerHopLimit?
  else some (.notIP, f)

theorem lt_of_minimumIPv4 (h : minimumIPv4 ≤ f.length) :
    timeToLiveAt < f.length ∧ checksumAt < f.length ∧ checksumAt + 1 < f.length := by
  simp only [minimumIPv4, timeToLiveAt, checksumAt, headerLength] at h ⊢
  omega

theorem lt_of_minimumIPv6 (h : minimumIPv6 ≤ f.length) : hopLimitAt < f.length := by
  simp only [minimumIPv6, hopLimitAt, headerLength] at h ⊢
  omega

theorem getElem?_eq_getD {i : Nat} (h : i < f.length) : f[i]? = some (f.getD i 0) := by
  rw [List.getD_eq_getElem?_getD, List.getElem?_eq_getElem h]
  rfl

theorem store?_eq {i : Nat} (h : i < f.length) (octet : UInt8) :
    f.store? i octet = some (f.set i octet) :=
  if_pos h

theorem lowerTimeToLive?_eq (h : minimumIPv4 ≤ f.length) :
    f.lowerTimeToLive? = some f.lowerTimeToLive := by
  obtain ⟨httl, hhi, hlo⟩ := lt_of_minimumIPv4 h
  have hprotocol : timeToLiveAt + 1 < f.length := Nat.lt_trans (by decide : _ < checksumAt) hhi
  unfold lowerTimeToLive? lowerTimeToLive word?
  rw [getElem?_eq_getD httl, getElem?_eq_getD hprotocol, getElem?_eq_getD hhi, getElem?_eq_getD hlo]
  simp only [Option.bind_eq_bind, Option.bind_some]
  by_cases hdead : f.getD timeToLiveAt 0 ≤ 1
  · rw [if_pos hdead, if_pos hdead]
    rfl
  · rw [if_neg hdead, if_neg hdead, store?_eq httl]
    simp only [Option.bind_some]
    rw [store?_eq (by rwa [List.length_set])]
    simp only [Option.bind_some]
    rw [store?_eq (by rwa [List.length_set, List.length_set])]
    rfl

theorem lowerHopLimit?_eq (h : minimumIPv6 ≤ f.length) :
    f.lowerHopLimit? = some f.lowerHopLimit := by
  have hlen := lt_of_minimumIPv6 h
  unfold lowerHopLimit? lowerHopLimit
  rw [getElem?_eq_getD hlen]
  simp only [Option.bind_eq_bind, Option.bind_some, store?_eq hlen]
  split
  · rfl
  · rfl

theorem lowerHopCount?_eq (f : Frame) : f.lowerHopCount? = some f.lowerHopCount := by
  unfold lowerHopCount? lowerHopCount
  split
  · rename_i h
    exact lowerTimeToLive?_eq h.2
  · split
    · rename_i h
      exact lowerHopLimit?_eq h.2
    · rfl

/-! ## Frames with hops left -/

/-- An IPv4 frame that may be relayed once more. -/
structure HopsLeftIPv4 (f : Frame) (ttl : UInt8) : Prop where
  kind : f.etherType? = some typeIPv4
  long : minimumIPv4 ≤ f.length
  count : f[timeToLiveAt]? = some ttl
  left : 2 ≤ ttl

/-- An IPv6 frame that may be relayed once more. -/
structure HopsLeftIPv6 (f : Frame) (hops : UInt8) : Prop where
  kind : f.etherType? = some typeIPv6
  long : minimumIPv6 ≤ f.length
  count : f[hopLimitAt]? = some hops
  left : 2 ≤ hops

/-- The octet at a position is one less, and outside of some positions nothing else differs. -/
structure CountsDown (f g : Frame) (position : Nat) (others : List Nat) : Prop where
  length : g.length = f.length
  lowered : ∃ x y, f[position]? = some x ∧ g[position]? = some y ∧ y.toNat + 1 = x.toNat
  kept : ∀ i, i ≠ position → i ∉ others → g[i]? = f[i]?

/-- Headers add up in both frames or in neither, and a checksum as computed from scratch stays one. -/
structure KeepsChecksum (f g : Frame) (len : Nat) : Prop where
  addsUp : g.HeaderAddsUp len ↔ f.HeaderAddsUp len
  fresh : f.word? checksumAt = some (f.freshChecksum len) →
    g.word? checksumAt = some (g.freshChecksum len)

theorem word?_layout (hl : lead.length = timeToLiveAt) :
    word? (lead ++ ttl :: protocol :: hi :: lo :: rest) checksumAt = some (word hi lo) := by
  have hlead : lead.length = 22 := hl
  simp [word?, checksumAt, headerLength, List.getElem?_append_right, hlead]

theorem lowerTimeToLive_keeps (hl : lead.length = timeToLiveAt) (ht : 2 ≤ ttl) (hlen : 20 ≤ len) :
    KeepsChecksum (lead ++ ttl :: protocol :: hi :: lo :: rest)
      (lowerTimeToLive (lead ++ ttl :: protocol :: hi :: lo :: rest)).2 len := by
  have hold := word_le ttl protocol
  have hnew := word_le (ttl - 1) protocol
  have hcheck := word_le hi lo
  have hpos := word_pos protocol ht
  rw [lowerTimeToLive_layout hl ht]
  dsimp only
  have hlt := HopCount.updateChecksum_lt (word hi lo) (word ttl protocol) hpos.1 hnew
  have hmod := HopCount.updateChecksum_mod hcheck hold hnew
  have hword := word_octets (w := HopCount.updateChecksum (word hi lo) (word ttl protocol)
    (word (ttl - 1) protocol)) (by omega)
  refine ⟨headerAddsUp_iff hl hlen hpos.2 hpos.1 (by rw [hword]; exact hmod), fun hfresh => ?_⟩
  rw [word?_layout hl] at hfresh ⊢
  obtain ⟨-, hsum⟩ := (eq_freshChecksum_iff hl hlen hpos.2).1 (Option.some.inj hfresh)
  rw [hword]
  exact congrArg some ((eq_freshChecksum_iff hl hlen hpos.1).2 ⟨hlt, by omega⟩)

theorem HopsLeftIPv4.lowered (h : f.HopsLeftIPv4 ttl) :
    f.lowerHopCount.1 = .lowered (ttl - 1) ∧
      CountsDown f f.lowerHopCount.2 timeToLiveAt [checksumAt, checksumAt + 1] ∧
      ∀ len, 20 ≤ len → KeepsChecksum f f.lowerHopCount.2 len := by
  have hbranch : f.lowerHopCount = f.lowerTimeToLive := if_pos ⟨h.kind, h.long⟩
  rw [hbranch]
  obtain ⟨lead, x, protocol, hi, lo, rest, hl, rfl⟩ := exists_layout h.long
  have hlead : lead.length = 22 := hl
  obtain rfl : x = ttl := by
    have hcount := h.count
    rw [List.getElem?_append_right (by omega), hl] at hcount
    simpa using hcount
  refine ⟨?_, ⟨?_, ⟨x, x - 1, h.count, ?_, toNat_sub_one h.left⟩, fun i hi hothers => ?_⟩,
    fun len hlen => lowerTimeToLive_keeps hl h.left hlen⟩
  all_goals rw [lowerTimeToLive_layout hl h.left]
  · simp
  · dsimp only
    rw [List.getElem?_append_right (by omega), hl]
    simp
  · dsimp only
    rcases Nat.lt_or_ge i 22 with hlt | hge
    · rw [List.getElem?_append_left (by omega), List.getElem?_append_left (by omega)]
    · obtain ⟨k, rfl⟩ := Nat.exists_eq_add_of_le hge
      rw [List.getElem?_append_right (by omega), List.getElem?_append_right (by omega), hlead,
        Nat.add_sub_cancel_left]
      match k with
      | 0 => exact absurd rfl hi
      | 1 => rfl
      | 2 | 3 => simp [checksumAt, headerLength] at hothers
      | k + 4 => rfl

theorem HopsLeftIPv6.lowered {hops : UInt8} (h : f.HopsLeftIPv6 hops) :
    f.lowerHopCount.1 = .lowered (hops - 1) ∧ CountsDown f f.lowerHopCount.2 hopLimitAt [] := by
  have hother : ¬(f.etherType? = some typeIPv4 ∧ minimumIPv4 ≤ f.length) := fun h4 => by
    rw [h.kind] at h4
    exact absurd h4.1 (by decide)
  have hread : f.getD hopLimitAt 0 = hops := by
    rw [List.getD_eq_getElem?_getD, h.count]
    rfl
  have hbranch : f.lowerHopCount = (.lowered (hops - 1), f.set hopLimitAt (hops - 1)) := by
    unfold lowerHopCount
    rw [if_neg hother, if_pos ⟨h.kind, h.long⟩]
    unfold lowerHopLimit
    rw [hread]
    exact if_neg (not_le_one_iff.2 h.left)
  rw [hbranch]
  refine ⟨rfl, List.length_set, ⟨hops, hops - 1, h.count, ?_, toNat_sub_one h.left⟩,
    fun i hi _ => List.getElem?_set_ne hi.symm⟩
  exact List.getElem?_set_self (lt_of_minimumIPv6 h.long)

theorem lowerHopCount_of_none_left (h4 : ∀ ttl, ¬f.HopsLeftIPv4 ttl)
    (h6 : ∀ hops, ¬f.HopsLeftIPv6 hops) : f.lowerHopCount.2 = f := by
  unfold lowerHopCount
  split
  · rename_i h
    have hcount := getElem?_eq_getD (lt_of_minimumIPv4 h.2).1
    have hdead : f.getD timeToLiveAt 0 ≤ 1 :=
      Decidable.byContradiction fun hlive => h4 _ ⟨h.1, h.2, hcount, not_le_one_iff.1 hlive⟩
    exact congrArg Prod.snd (if_pos hdead)
  · split
    · rename_i h
      have hcount := getElem?_eq_getD (lt_of_minimumIPv6 h.2)
      have hdead : f.getD hopLimitAt 0 ≤ 1 :=
        Decidable.byContradiction fun hlive => h6 _ ⟨h.1, h.2, hcount, not_le_one_iff.1 hlive⟩
      exact congrArg Prod.snd (if_pos hdead)
    · rfl

/-- Lowering a hop count stays inside the frame. It lowers a count of two or more by one and touches
the checksum of an IPv4 header besides, which is right afterwards if it was before, for headers of every
length and with any other contents. Any other frame is left alone. -/
theorem lowerHopCount_keeps_checksum (f : Frame) :
    f.lowerHopCount? = some f.lowerHopCount ∧
      (∀ ttl, f.HopsLeftIPv4 ttl → f.lowerHopCount.1 = .lowered (ttl - 1) ∧
        CountsDown f f.lowerHopCount.2 timeToLiveAt [checksumAt, checksumAt + 1] ∧
        ∀ len, 20 ≤ len → KeepsChecksum f f.lowerHopCount.2 len) ∧
      (∀ hops, f.HopsLeftIPv6 hops → f.lowerHopCount.1 = .lowered (hops - 1) ∧
        CountsDown f f.lowerHopCount.2 hopLimitAt []) ∧
      ((∀ ttl, ¬f.HopsLeftIPv4 ttl) → (∀ hops, ¬f.HopsLeftIPv6 hops) → f.lowerHopCount.2 = f) :=
  ⟨lowerHopCount?_eq f, fun _ h => h.lowered, fun _ h => h.lowered, lowerHopCount_of_none_left⟩

/-- A datagram whose header has a router alert after the twenty octets that every header has. -/
def alerted : Frame :=
  [0x01, 0x00, 0x5e, 0x00, 0x00, 0xfb, 0x02, 0x00, 0x00, 0x00, 0x00, 0x01, 0x08, 0x00,
    0x46, 0x00, 0x00, 0x18, 0x36, 0xd5, 0x00, 0x00, 0x05, 0x11, 0xfe, 0xff,
    0x0a, 0x00, 0x00, 0x01, 0xe0, 0x00, 0x00, 0xfb, 0x94, 0x04, 0x00, 0x00]

/-- Its checksum goes from the last but one value to zero, not to the other form of zero. -/
theorem alerted_keeps_checksum :
    alerted.HopsLeftIPv4 5 ∧ alerted.HeaderAddsUp 24 ∧
      alerted.word? checksumAt = some 0xfeff ∧ alerted.freshChecksum 24 = 0xfeff ∧
      alerted.lowerHopCount? = some alerted.lowerHopCount ∧
      alerted.lowerHopCount.1 = .lowered 4 ∧
      CountsDown alerted alerted.lowerHopCount.2 timeToLiveAt [checksumAt, checksumAt + 1] ∧
      alerted.lowerHopCount.2.HeaderAddsUp 24 ∧ alerted.lowerHopCount.2.freshChecksum 24 = 0 ∧
      alerted.lowerHopCount.2.word? checksumAt = some 0 := by
  obtain ⟨inside, hlowered, -, -⟩ := lowerHopCount_keeps_checksum alerted
  have left : alerted.HopsLeftIPv4 5 := ⟨by decide, by decide, rfl, by decide⟩
  have addsUp : alerted.HeaderAddsUp 24 := by decide
  have fresh : alerted.freshChecksum 24 = 0xfeff := by decide
  have stored : alerted.word? checksumAt = some 0xfeff := by decide
  have zero : alerted.lowerHopCount.2.freshChecksum 24 = 0 := by decide
  obtain ⟨hfour, counts, keeps⟩ := hlowered 5 left
  have keeps := keeps 24 (by decide)
  exact ⟨left, addsUp, stored, fresh, inside, hfour, counts, keeps.addsUp.2 addsUp, zero,
    zero ▸ keeps.fresh (fresh.symm ▸ stored)⟩

end Frame
end MulticastRelay
