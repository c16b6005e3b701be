import Log2Bgp.Lib.Lists
import Log2Bgp.Update.Wire

/-!
# The attribute walk over well-formed attributes
-/

namespace Log2Bgp

open Lib

variable {packet rest : List UInt8}

/-! ## Words in the packet -/

theorem readHalf_of_drop {i : Nat} {hi lo : UInt8} (h : packet.drop (i + 1) = hi :: lo :: rest) :
    readHalf packet i = .ok (be16 hi lo).toUInt32 := by
  have h1 : readByte packet (i + 1) = .ok hi := readByte_of_drop (k := 0) (by rw [h]; rfl)
  have h2 : readByte packet (i + 2) = .ok lo :=
    readByte_of_drop (n := i + 1) (k := 1) (by rw [h]; rfl)
  simp only [readHalf, h1, h2, Checked.ok_bind, Checked.pure_eq_ok]

theorem readWord_of_drop {i : Nat} {a b c d : UInt8}
    (h : packet.drop (i + 1) = a :: b :: c :: d :: rest) :
    readWord packet i = .ok (be32 a b c d) := by
  have h1 : readByte packet (i + 1) = .ok a := readByte_of_drop (k := 0) (by rw [h]; rfl)
  have h2 : readByte packet (i + 2) = .ok b :=
    readByte_of_drop (n := i + 1) (k := 1) (by rw [h]; rfl)
  have h3 : readByte packet (i + 3) = .ok c :=
    readByte_of_drop (n := i + 1) (k := 2) (by rw [h]; rfl)
  have h4 : readByte packet (i + 4) = .ok d :=
    readByte_of_drop (n := i + 1) (k := 3) (by rw [h]; rfl)
  simp only [readWord, h1, h2, h3, h4, Checked.ok_bind, Checked.pure_eq_ok]

theorem readHalf_half {i : Nat} {v : UInt16} (h : packet.drop (i + 1) = WireAttr.half v ++ rest) :
    readHalf packet i = .ok v.toUInt32 := by
  obtain ⟨hi, lo, hb, hv⟩ := beBytes_two v.toNat v.toNat_lt
  rw [WireAttr.half, hb] at h
  rw [readHalf_of_drop h, UInt16.toNat_inj.mp hv]

theorem readWord_word {i : Nat} {v : UInt32} (h : packet.drop (i + 1) = WireAttr.word v ++ rest) :
    readWord packet i = .ok v := by
  obtain ⟨a, b, c, d, hb, hv⟩ := beBytes_four v
  rw [WireAttr.word, hb] at h
  rw [readWord_of_drop h, hv]

theorem copyBytes_memBytes {src : Nat} {addr : UInt32} {count : Int} (hcount : count = 4)
    (h : packet.drop src = memBytes addr ++ rest) :
    copyBytes packet src count 4 = .ok (memBytes addr) := by
  subst hcount
  have hl := length_memBytes addr
  have hc : copyBytes packet src (memBytes addr).length 4 = .ok (memBytes addr) :=
    copyBytes_of_drop h (by omega) (by omega)
  rwa [hl] at hc

@[simp] theorem overlay_memBytes (old addr : UInt32) : overlay old (memBytes addr) = addr := by
  rw [overlay_full (length_memBytes addr), memWord_memBytes]

/-! ## Segments and communities -/

theorem parseSegment_of_drop {width i : Nat} {asn : Nat → Checked UInt32} {α : Type}
    {enc : α → List UInt8} {f : α → UInt32} {t : UInt8} {asns : Counted α}
    (hwidth : ∀ x, (enc x).length = width)
    (hasn : ∀ x o r, packet.drop (o + 1) = enc x ++ r → asn o = .ok (f x))
    (h : packet.drop (i + 1) = t :: asns.length :: asns.elems.flatMap enc ++ rest) :
    parseSegment width asn i packet = .ok ⟨t, asns.map f⟩ := by
  have h1 : readByte packet (i + 1) = .ok t := readByte_of_drop (k := 0) (by rw [h]; rfl)
  have h2 : readByte packet (i + 2) = .ok asns.length :=
    readByte_of_drop (n := i + 1) (k := 1) (by rw [h]; rfl)
  have hdrop : packet.drop (i + 2 + 1) = asns.elems.flatMap enc ++ rest := by
    have hpair : packet.drop (i + 1) = [t, asns.length] ++ (asns.elems.flatMap enc ++ rest) := by
      rw [h]; rfl
    exact drop_add_of_drop hpair
  have helems := readElems_of_drop hwidth hasn asns.elems (i + 2) hdrop
  rw [asns.sized] at helems
  have hfill : fillArray width asn asns.length (i + 2) = .ok (asns.map f) :=
    fillArray_of_readElems helems
  simp only [parseSegment, h1, h2, hfill, Checked.ok_bind, Checked.pure_eq_ok]

theorem parseAsPath_of_drop {i : Nat} {u : BgpUpdate} {t : UInt8} {asns : Counted UInt16}
    (h : packet.drop (i + 1) = t :: asns.length :: asns.elems.flatMap WireAttr.half ++ rest) :
    parseAsPath i u packet = .ok { u with asPath := some ⟨t, asns.map UInt16.toUInt32⟩ } := by
  have hseg := parseSegment_of_drop (fun x => length_beBytes 2 _) (fun _ _ _ => readHalf_half) h
  simp only [parseAsPath, hseg, Checked.ok_bind, Checked.pure_eq_ok]

theorem parseAs4Path_of_drop {i : Nat} {u : BgpUpdate} {t : UInt8} {asns : Counted UInt32}
    (h : packet.drop (i + 1) = t :: asns.length :: asns.elems.flatMap WireAttr.word ++ rest) :
    parseAs4Path i u packet = .ok { u with as4Path := some ⟨t, asns⟩ } := by
  have hseg := parseSegment_of_drop (f := id) (fun x => length_beBytes 4 _)
    (fun _ _ _ => readWord_word) h
  have hid : asns.map id = asns := Counted.ext_elems (List.map_id asns.elems)
  rw [hid] at hseg
  simp only [parseAs4Path, hseg, Checked.ok_bind, Checked.pure_eq_ok]

theorem readCommunity_of_drop {i : Nat} {v : UInt16 × UInt16}
    (h : packet.drop (i + 1) = (WireAttr.half v.1 ++ WireAttr.half v.2) ++ rest) :
    readCommunity packet i = .ok ⟨v.1.toUInt32, v.2.toUInt32⟩ := by
  rw [List.append_assoc] at h
  have hsecond : packet.drop (i + 2 + 1) = WireAttr.half v.2 ++ rest := by
    have := drop_add_of_drop h
    rwa [WireAttr.half, length_beBytes, Nat.add_right_comm] at this
  simp only [readCommunity, readHalf_half h, readHalf_half hsecond, Checked.ok_bind,
    Checked.pure_eq_ok]

theorem parseCommunity_of_drop {i : Nat} {u : BgpUpdate} {length : UInt8}
    {values : Counted (UInt16 × UInt16)} (hlength : length / 4 = values.length)
    (hpos : values.length ≠ 0)
    (h : packet.drop (i + 1) =
      values.elems.flatMap (fun v => WireAttr.half v.1 ++ WireAttr.half v.2) ++ rest) :
    parseCommunity i length u packet =
      .ok { u with community := values.map fun v => ⟨v.1.toUInt32, v.2.toUInt32⟩ } := by
  have hwidth : ∀ v : UInt16 × UInt16, (WireAttr.half v.1 ++ WireAttr.half v.2).length = 4 :=
    fun v => by simp [WireAttr.half]
  have helems := readElems_of_drop hwidth (fun _ _ _ => readCommunity_of_drop) values.elems i h
  rw [values.sized] at helems
  have hfill : fillArray 4 (readCommunity packet) values.length i =
      .ok (values.map fun v => ⟨v.1.toUInt32, v.2.toUInt32⟩) := fillArray_of_readElems helems
  simp only [parseCommunity, hlength, hpos, ↓reduceIte, hfill, Checked.ok_bind, Checked.pure_eq_ok]

/-! ## One attribute -/

namespace WireAttr

/-- Stores what the walk keeps of an attribute: its value, or of a path the first segment. -/
def apply (u : BgpUpdate) : WireAttr → BgpUpdate
  | origin v => { u with origin := v }
  | asPath [] => u
  | asPath ((t, asns) :: _) => { u with asPath := some ⟨t, asns.map UInt16.toUInt32⟩ }
  | nextHop addr => { u with ipv4NextHop := addr }
  | med v => { u with med := v }
  | localPref v => { u with localPref := v }
  | atomicAggregate => { u with atomicAggregate := true }
  | aggregator asn addr => { u with aggregator := some ⟨asn.toUInt32, addr⟩ }
  | community values =>
      { u with community := values.map fun v => ⟨v.1.toUInt32, v.2.toUInt32⟩ }
  | as4Path [] => u
  | as4Path ((t, asns) :: _) => { u with as4Path := some ⟨t, asns⟩ }
  | as4Aggregator asn addr => { u with as4Aggregator := some ⟨asn, addr⟩ }
  | other _ _ => u

end WireAttr

@[simp] theorem Walk.advance_zero (w : Walk) : w.advance 0 = w := by
  simp [Walk.advance]

theorem attribSwitch_other {flags code length : UInt8} {w : Walk}
    (hcode : code ∉ WireAttr.storedCodes) :
    attribSwitch packet ⟨flags, .ofByte code, length⟩ w = .ok (w.advance length) := by
  have hskip : (if length = 0 then .ok w else .ok (w.advance length) : Checked Walk) =
      .ok (w.advance length) := by
    by_cases hl : length = 0
    · rw [if_pos hl, hl, Walk.advance_zero]
    · rw [if_neg hl]
  unfold BgpPathAttrib.ofByte
  split
  case h_1 | h_16 => rfl
  case h_10 | h_11 | h_12 | h_13 => exact hskip
  all_goals exact absurd (by decide) hcode

theorem toNat_lengthByte {n : Nat} (h : n ≤ 255) : (UInt8.ofNat n).toNat = n := by
  simp only [UInt8.toNat_ofNat', Nat.reducePow]
  omega

theorem lengthByte_ne_zero {n : Nat} (h : n ≤ 255) (hpos : 0 < n) : UInt8.ofNat n ≠ 0 := by
  intro h0
  have hn := toNat_lengthByte h
  rw [h0] at hn
  have : (0 : UInt8).toNat = 0 := rfl
  omega

/-- A quarter of the length byte of a community attribute is its number of values. -/
theorem lengthByte_div_four {n : UInt8} (h : 4 * n.toNat ≤ 255) :
    UInt8.ofNat (4 * n.toNat) / 4 = n := by
  apply UInt8.toNat_inj.mp
  have hdiv : 4 * n.toNat / 4 = n.toNat := by omega
  rw [UInt8.toNat_div, toNat_lengthByte h]
  exact hdiv

theorem length_communityBytes (vs : List (UInt16 × UInt16)) :
    (vs.flatMap fun v => WireAttr.half v.1 ++ WireAttr.half v.2).length = 4 * vs.length := by
  induction vs with
  | nil => rfl
  | cons v vs ih =>
      have hv : (WireAttr.half v.1 ++ WireAttr.half v.2).length = 4 := by simp [WireAttr.half]
      rw [List.flatMap_cons, List.length_append, ih, hv, List.length_cons]
      omega

theorem attribSwitch_eq (a : PathAttribute) (w : Walk)
    (h : packet.drop (w.i + 1) = a.value.payload ++ rest) :
    attribSwitch packet ⟨a.flags, .ofByte a.code, UInt8.ofNat a.value.payload.length⟩ w =
      .ok ({ w with update := a.value.apply w.update }.advance
        (UInt8.ofNat a.value.payload.length)) := by
  obtain ⟨flags, value, hlen, hkind⟩ := a
  simp only [PathAttribute.code] at h ⊢
  have hne := lengthByte_ne_zero hlen
  cases value with
  | origin v =>
      have hb : readByte packet (w.i + 1) = .ok v := readByte_of_drop (k := 0) (by rw [h]; rfl)
      simp [WireAttr.code, WireAttr.payload, BgpPathAttrib.ofByte, attribSwitch, hb, Walk.advance,
        WireAttr.apply]
  | asPath segments =>
      cases segments with
      | nil =>
          simp [WireAttr.code, WireAttr.payload, BgpPathAttrib.ofByte, attribSwitch, WireAttr.apply]
      | cons s more =>
          obtain ⟨t, asns⟩ := s
          have hpos : UInt8.ofNat (WireAttr.asPath ((t, asns) :: more)).payload.length ≠ 0 :=
            hne (by simp [WireAttr.payload, WireAttr.segment])
          have hfirst : packet.drop (w.i + 1) = t :: asns.length ::
              asns.elems.flatMap WireAttr.half ++ (more.flatMap (WireAttr.segment WireAttr.half) ++ rest) := by
            rw [h, WireAttr.payload, List.flatMap_cons, List.append_assoc]
            rfl
          have hp : parseAsPath w.i w.update packet =
              .ok (WireAttr.apply w.update (.asPath ((t, asns) :: more))) := parseAsPath_of_drop hfirst
          simp only [WireAttr.code, BgpPathAttrib.ofByte, attribSwitch, hpos, ↓reduceIte, hp,
            Checked.ok_bind, Checked.pure_eq_ok]
  | nextHop addr =>
      have hc := copyBytes_memBytes rfl h
      simp [WireAttr.code, WireAttr.payload, BgpPathAttrib.ofByte, attribSwitch, WireAttr.apply, hc]
  | med v =>
      have hw := readWord_word h
      simp [WireAttr.code, WireAttr.payload, WireAttr.word, BgpPathAttrib.ofByte, attribSwitch,
        WireAttr.apply, hw]
  | localPref v =>
      have hw := readWord_word h
      simp [WireAttr.code, WireAttr.payload, WireAttr.word, BgpPathAttrib.ofByte, attribSwitch,
        WireAttr.apply, hw]
  | atomicAggregate =>
      simp [WireAttr.code, WireAttr.payload, BgpPathAttrib.ofByte, attribSwitch, WireAttr.apply]
  | aggregator asn addr =>
      simp only [WireAttr.payload, List.append_assoc] at h
      have hw := readHalf_half h
      have hc : copyBytes packet (w.i + 3) 4 4 = .ok (memBytes addr) :=
        copyBytes_memBytes rfl (drop_add_of_drop h)
      simp [WireAttr.code, WireAttr.payload, WireAttr.half, BgpPathAttrib.ofByte, attribSwitch,
        WireAttr.apply, hw, hc]
  | community values =>
      have hbytes : (WireAttr.community values).payload.length = 4 * values.length.toNat := by
        rw [WireAttr.payload, length_communityBytes, values.sized]
      have hcount : 0 < values.length.toNat := by
        rcases Nat.eq_zero_or_pos values.length.toNat with h0 | h0
        · exact absurd (UInt8.toNat_inj.mp h0) hkind
        · exact h0
      have hpos := hne (by omega)
      rw [hbytes] at hlen hpos ⊢
      have hp : parseCommunity w.i (UInt8.ofNat (4 * values.length.toNat)) w.update packet =
          .ok (WireAttr.apply w.update (.community values)) :=
        parseCommunity_of_drop (lengthByte_div_four hlen) hkind h
      simp only [WireAttr.code, BgpPathAttrib.ofByte, attribSwitch, hpos, ↓reduceIte, hp,
        Checked.ok_bind, Checked.pure_eq_ok]
  | as4Path segments =>
      cases segments with
      | nil =>
          simp [WireAttr.code, WireAttr.payload, BgpPathAttrib.ofByte, attribSwitch, WireAttr.apply]
      | cons s more =>
          obtain ⟨t, asns⟩ := s
          have hpos : UInt8.ofNat (WireAttr.as4Path ((t, asns) :: more)).payload.length ≠ 0 :=
            hne (by simp [WireAttr.payload, WireAttr.segment])
          have hfirst : packet.drop (w.i + 1) = t :: asns.length ::
              asns.elems.flatMap WireAttr.word ++ (more.flatMap (WireAttr.segment WireAttr.word) ++ rest) := by
            rw [h, WireAttr.payload, List.flatMap_cons, List.append_assoc]
            rfl
          have hp : parseAs4Path w.i w.update packet =
              .ok (WireAttr.apply w.update (.as4Path ((t, asns) :: more))) := parseAs4Path_of_drop hfirst
          simp only [WireAttr.code, BgpPathAttrib.ofByte, attribSwitch, hpos, ↓reduceIte, hp,
            Checked.ok_bind, Checked.pure_eq_ok]
  | as4Aggregator asn addr =>
      simp only [WireAttr.payload, List.append_assoc] at h
      have hw := readWord_word h
      have hc : copyBytes packet (w.i + 5) 4 4 = .ok (memBytes addr) :=
        copyBytes_memBytes rfl (drop_add_of_drop h)
      simp [WireAttr.code, WireAttr.payload, WireAttr.word, BgpPathAttrib.ofByte, attribSwitch,
        WireAttr.apply, hw, hc]
  | other code bytes => exact attribSwitch_other hkind

/-! ## All attributes -/

/-- Stores the values of all attributes, in order. -/
def applyAll (u : BgpUpdate) (as : List PathAttribute) : BgpUpdate :=
  as.foldl (fun u a => a.value.apply u) u

theorem length_encode_attribute (a : PathAttribute) :
    a.encode.length = 3 + a.value.payload.length := by
  simp only [PathAttribute.encode, List.length_cons]
  omega

/-- One pass of the loop. -/
def attribPass (packet : List UInt8) (w : Walk) : Checked Walk := do
  let flags ← readByte packet (w.i + 1)
  let code ← readByte packet (w.i + 2)
  let length ← readByte packet (w.i + 3)
  attribSwitch packet ⟨flags, .ofByte code, length⟩ { w with i := w.i + 3, readLen := w.readLen + 3 }

theorem attribLoop_succ (pathAttribLen : UInt16) (fuel : Nat) (w : Walk) :
    attribLoop packet pathAttribLen (fuel + 1) w =
      if w.readLen < pathAttribLen then attribPass packet w >>= attribLoop packet pathAttribLen fuel
      else .ok w := by
  simp only [attribLoop, attribPass, bind_assoc]

theorem attribPass_of_drop {flags code length : UInt8} {w : Walk}
    (h : packet.drop (w.i + 1) = flags :: code :: length :: rest) :
    attribPass packet w = attribSwitch packet ⟨flags, .ofByte code, length⟩
      { w with i := w.i + 3, readLen := w.readLen + 3 } := by
  have h1 : readByte packet (w.i + 1) = .ok flags := readByte_of_drop (k := 0) (by rw [h]; rfl)
  have h2 : readByte packet (w.i + 2) = .ok code :=
    readByte_of_drop (n := w.i + 1) (k := 1) (by rw [h]; rfl)
  have h3 : readByte packet (w.i + 3) = .ok length :=
    readByte_of_drop (n := w.i + 1) (k := 2) (by rw [h]; rfl)
  simp only [attribPass, h1, h2, h3, Checked.ok_bind]

/-- The walk behind an attribute, with its value stored. -/
def Walk.past (w : Walk) (a : PathAttribute) : Walk :=
  { update := a.value.apply w.update
    i := w.i + a.encode.length
    readLen := w.readLen + 3 + (UInt8.ofNat a.value.payload.length).toUInt16 }

theorem attribPass_eq (a : PathAttribute) (w : Walk) (h : packet.drop (w.i + 1) = a.encode ++ rest) :
    attribPass packet w = .ok (w.past a) := by
  have hvalue : packet.drop (w.i + 3 + 1) = a.value.payload ++ rest := by
    have hhead : packet.drop (w.i + 1) =
        [a.flags, a.code, UInt8.ofNat a.value.payload.length] ++ (a.value.payload ++ rest) := h
    exact drop_add_of_drop hhead
  rw [attribPass_of_drop (w := w) h, attribSwitch_eq a _ hvalue]
  simp only [Walk.advance, Walk.past, toNat_lengthByte a.fits.1, length_encode_attribute, Nat.add_assoc]

theorem Walk.toNat_past_readLen {w : Walk} {a : PathAttribute}
    (h : w.readLen.toNat + a.encode.length < 65536) :
    (w.past a).readLen.toNat = w.readLen.toNat + a.encode.length := by
  have h3 : (3 : UInt16).toNat = 3 := rfl
  rw [length_encode_attribute] at h ⊢
  rw [Walk.past, UInt16.toNat_add, UInt16.toNat_add, UInt8.toNat_toUInt16, toNat_lengthByte a.fits.1, h3]
  omega

/-- The walk stops exactly behind the attributes, with all of them stored. -/
theorem attribLoop_eq (pathAttribLen : UInt16) (as : List PathAttribute) (fuel : Nat) (w : Walk)
    (hfuel : as.length < fuel)
    (hlen : w.readLen.toNat + (as.flatMap PathAttribute.encode).length = pathAttribLen.toNat)
    (h : packet.drop (w.i + 1) = as.flatMap PathAttribute.encode ++ rest) :
    attribLoop packet pathAttribLen fuel w =
      .ok { update := applyAll w.update as
            i := w.i + (as.flatMap PathAttribute.encode).length
            readLen := pathAttribLen } := by
  induction as generalizing fuel w with
  | nil =>
      obtain ⟨fuel, rfl⟩ : ∃ n, fuel = n + 1 := ⟨fuel - 1, by simp at hfuel; omega⟩
      have hread : w.readLen = pathAttribLen := UInt16.toNat_inj.mp (by simpa using hlen)
      subst hread
      simp [attribLoop, applyAll]
  | cons a as ih =>
      obtain ⟨fuel, rfl⟩ : ∃ n, fuel = n + 1 := ⟨fuel - 1, by simp at hfuel; omega⟩
      have hpal := pathAttribLen.toNat_lt
      have hal := length_encode_attribute a
      rw [List.flatMap_cons, List.append_assoc] at h
      rw [List.flatMap_cons, List.length_append] at hlen
      have hlt : w.readLen < pathAttribLen := by
        rw [UInt16.lt_iff_toNat_lt]
        omega
      have hread := Walk.toNat_past_readLen (w := w) (a := a) (by omega)
      have hnext : packet.drop ((w.past a).i + 1) = as.flatMap PathAttribute.encode ++ rest := by
        rw [Walk.past, Nat.add_right_comm]
        exact drop_add_of_drop h
      have hrec := ih fuel (w.past a) (by simpa using hfuel) (by omega) hnext
      rw [attribLoop_succ, if_pos hlt, attribPass_eq a w h, Checked.ok_bind, hrec, List.flatMap_cons,
        List.length_append, ← Nat.add_assoc]
      rfl

/-! ## The order of the attributes does not matter -/

section Carried

variable {β : Type} {as : List PathAttribute}

/-- Of attributes of distinct types, at most one speaks of a field. -/
theorem pairwise_of_distinct {ext : PathAttribute → Option β} {code : UInt8}
    (hext : ∀ a v, ext a = some v → a.code = code) (hd : (as.map PathAttribute.code).Nodup) :
    as.Pairwise fun a b => ext a = none ∨ ext b = none := by
  refine (List.pairwise_map.mp hd).imp ?_
  intro a b hab
  cases ha : ext a with
  | none => exact Or.inl rfl
  | some v =>
      cases hb : ext b with
      | none => exact Or.inr rfl
      | some w => exact absurd ((hext a v ha).trans (hext b w hb).symm) hab

theorem applyAll_field (proj : BgpUpdate → β) {ext : WireAttr → Option β}
    (happly : ∀ u a, proj (WireAttr.apply u a) = (ext a).getD (proj u)) (u : BgpUpdate) :
    proj (applyAll u as) = as.foldl (fun x a => (ext a.value).getD x) (proj u) := by
  induction as generalizing u with
  | nil => rfl
  | cons a as ih =>
      have hstep : applyAll u (a :: as) = applyAll (a.value.apply u) as := rfl
      rw [hstep, ih, happly, List.foldl_cons]

theorem applyAll_getD (proj : BgpUpdate → β) {ext : WireAttr → Option β} (code : UInt8)
    (happly : ∀ u a, proj (WireAttr.apply u a) = (ext a).getD (proj u))
    (hext : ∀ a v, ext a = some v → a.code = code) (hd : (as.map PathAttribute.code).Nodup) :
    proj (applyAll {} as) = (as.findSome? (ext ·.value)).getD (proj {}) := by
  rw [applyAll_field proj happly]
  exact foldl_findSome (pairwise_of_distinct (fun a v => hext a.value v) hd) _

theorem applyAll_option (proj : BgpUpdate → Option β) {ext : WireAttr → Option β} (code : UInt8)
    (happly : ∀ u a, proj (WireAttr.apply u a) = ((ext a).map some).getD (proj u))
    (hext : ∀ a v, ext a = some v → a.code = code) (hnone : proj {} = none)
    (hd : (as.map PathAttribute.code).Nodup) :
    proj (applyAll {} as) = as.findSome? (ext ·.value) := by
  have hext' : ∀ a v, (ext a).map some = some v → a.code = code := by
    intro a v h
    obtain ⟨x, hx, _⟩ := Option.map_eq_some_iff.mp h
    exact hext a x hx
  have hmap : as.findSome? (fun a => (ext a.value).map some) =
      (as.findSome? (ext ·.value)).map some := (List.map_findSome? ..).symm
  rw [applyAll_getD proj code happly hext' hd, hmap, hnone]
  cases as.findSome? (ext ·.value) <;> rfl

/-- What an attribute stores, field by field. -/
theorem WireAttr.apply_eq (u : BgpUpdate) (a : WireAttr) : a.apply u =
    { u with
      origin := a.origin?.getD u.origin
      asPath := (a.asPath?.map some).getD u.asPath
      as4Path := (a.as4Path?.map some).getD u.as4Path
      ipv4NextHop := a.nextHop?.getD u.ipv4NextHop
      med := a.med?.getD u.med
      localPref := a.localPref?.getD u.localPref
      atomicAggregate := a.atomicAggregate?.getD u.atomicAggregate
      aggregator := (a.aggregator?.map some).getD u.aggregator
      as4Aggregator := (a.as4Aggregator?.map some).getD u.as4Aggregator
      community := a.community?.getD u.community } := by
  cases a with
  | asPath s => cases s <;> rfl
  | as4Path s => cases s <;> rfl
  | _ => rfl

theorem applyAll_frame (u : BgpUpdate) : (applyAll u as).nlri = u.nlri ∧
    (applyAll u as).addrFamilyId = u.addrFamilyId := by
  induction as generalizing u with
  | nil => exact ⟨rfl, rfl⟩
  | cons a as ih =>
      have ha : (WireAttr.apply u a.value).nlri = u.nlri ∧
          (WireAttr.apply u a.value).addrFamilyId = u.addrFamilyId := by
        rw [WireAttr.apply_eq]
        exact ⟨rfl, rfl⟩
      exact ⟨(ih _).1.trans ha.1, (ih _).2.trans ha.2⟩

/-- Only an attribute of its own type speaks of a field. -/
structure WireAttr.Speaks (a : WireAttr) : Prop where
  origin : ∀ v, a.origin? = some v → a.code = 1
  asPath : ∀ v, a.asPath? = some v → a.code = 2
  nextHop : ∀ v, a.nextHop? = some v → a.code = 3
  med : ∀ v, a.med? = some v → a.code = 4
  localPref : ∀ v, a.localPref? = some v → a.code = 5
  atomicAggregate : ∀ v, a.atomicAggregate? = some v → a.code = 6
  aggregator : ∀ v, a.aggregator? = some v → a.code = 7
  community : ∀ v, a.community? = some v → a.code = 8
  as4Path : ∀ v, a.as4Path? = some v → a.code = 0x11
  as4Aggregator : ∀ v, a.as4Aggregator? = some v → a.code = 0x12

theorem WireAttr.speaks (a : WireAttr) : a.Speaks := by
  cases a <;> constructor <;> intro v h <;> first | rfl | cases h

/-- A walk over attributes of distinct types leaves the value of each, in whatever order they come. -/
theorem applyAll_eq_carried (hd : (as.map PathAttribute.code).Nodup) :
    { applyAll {} as with addrFamily := afInet } = carried as := by
  have hframe := @applyAll_frame as {}
  refine BgpUpdate.ext ?_ ?_ ?_ ?_ ?_ ?_ ?_ ?_ ?_ ?_ rfl hframe.2 hframe.1
  · exact applyAll_getD (·.origin) 1 (fun u a => by rw [a.apply_eq]) (fun a => a.speaks.origin) hd
  · exact applyAll_option (·.asPath) 2 (fun u a => by rw [a.apply_eq]) (fun a => a.speaks.asPath)
      rfl hd
  · exact applyAll_option (·.as4Path) 0x11 (fun u a => by rw [a.apply_eq])
      (fun a => a.speaks.as4Path) rfl hd
  · exact applyAll_getD (·.ipv4NextHop) 3 (fun u a => by rw [a.apply_eq])
      (fun a => a.speaks.nextHop) hd
  · exact applyAll_getD (·.med) 4 (fun u a => by rw [a.apply_eq]) (fun a => a.speaks.med) hd
  · exact applyAll_getD (·.localPref) 5 (fun u a => by rw [a.apply_eq])
      (fun a => a.speaks.localPref) hd
  · exact applyAll_getD (·.atomicAggregate) 6 (fun u a => by rw [a.apply_eq])
      (fun a => a.speaks.atomicAggregate) hd
  · exact applyAll_option (·.aggregator) 7 (fun u a => by rw [a.apply_eq])
      (fun a => a.speaks.aggregator) rfl hd
  · exact applyAll_option (·.as4Aggregator) 0x12 (fun u a => by rw [a.apply_eq])
      (fun a => a.speaks.as4Aggregator) rfl hd
  · exact applyAll_getD (·.community) 8 (fun u a => by rw [a.apply_eq])
      (fun a => a.speaks.community) hd

end Carried

end Log2Bgp
