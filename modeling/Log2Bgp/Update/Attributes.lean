import Log2Bgp.Model.Report
import Log2Bgp.Update.Lemmas.Safety
import Log2Bgp.Update.Lemmas.Walk

/-!
# Attributes as they are sent

Paths of several segments, and attributes with a length of two bytes.
-/

namespace Log2Bgp

open Lib

variable {packet rest : List UInt8}

/-! ## Paths -/

/-- A path in one of its two formats. -/
inductive WirePath where
  | asPath (segments : List (UInt8 × Counted UInt16))
  | as4Path (segments : List (UInt8 × Counted UInt32))

namespace WirePath

def attr : WirePath → WireAttr
  | asPath segments => .asPath segments
  | as4Path segments => .as4Path segments

/-- The ASNs of each segment. -/
def asns : WirePath → List (List UInt32)
  | asPath segments => segments.map fun s => s.2.elems.map UInt16.toUInt32
  | as4Path segments => segments.map fun s => s.2.elems

/-- The segment of an update that the format is stored in. -/
def stored (u : BgpUpdate) : WirePath → Option AsPathSegment
  | asPath _ => u.asPath
  | as4Path _ => u.as4Path

/-- An update has every ASN of every segment in order, and its last one is the last of the path. -/
structure RecordedIn (path : WirePath) (u : BgpUpdate) : Prop where
  all : (path.stored u).elim [] AsPathSegment.asns = path.asns.flatten
  last : ∀ s asn, path.stored u = some s → path.asns.flatten.getLast? = some asn →
    s.valueAt (s.segValue.length - 1) = .ok asn

end WirePath

/-- The value that the queries for an origin compare with is the last one. -/
theorem AsPathSegment.valueAt_last {s : AsPathSegment} {asn : UInt32} (h : s.asns.getLast? = some asn) :
    s.valueAt (s.segValue.length - 1) = .ok asn := by
  have hsized : s.asns.length = s.segValue.length.toNat := s.segValue.sized
  rw [List.getLast?_eq_getElem?] at h
  have hlt := (List.getElem?_eq_some_iff.mp h).1
  have hindex : (s.segValue.length - 1).toNat = s.asns.length - 1 := by
    have h1 : (1 : UInt8).toNat = 1 := rfl
    rw [UInt8.toNat_sub_of_le _ _ (UInt8.le_iff_toNat_le.mpr (by omega)), hsized, h1]
  rw [AsPathSegment.valueAt, hindex, h]

/-- Of a path, the ASNs of the first segment are stored. -/
theorem WirePath.stored_apply (path : WirePath) {u : BgpUpdate} (hnone : path.stored u = none) :
    (path.stored (path.attr.apply u)).elim [] AsPathSegment.asns = path.asns.head?.getD [] := by
  cases path with
  | asPath segments =>
      cases segments with
      | nil => exact congrArg (fun s : Option AsPathSegment => s.elim [] AsPathSegment.asns) hnone
      | cons s more => rfl
  | as4Path segments =>
      cases segments with
      | nil => exact congrArg (fun s : Option AsPathSegment => s.elim [] AsPathSegment.asns) hnone
      | cons s more => rfl

/-- A path that fills its attribute is recorded whole just when no segment behind the first one has
an ASN. -/
theorem path_recorded_iff (path : WirePath) {flags : UInt8} {w : Walk} (hnone : path.stored w.update = none)
    (hlen : path.attr.payload.length ≤ 255)
    (h : packet.drop (w.i + 1) = path.attr.payload ++ rest) :
    ∃ w', attribSwitch packet
        ⟨flags, .ofByte path.attr.code, UInt8.ofNat path.attr.payload.length⟩ w = .ok w' ∧
      (path.RecordedIn w'.update ↔ ∀ asns ∈ path.asns.tail, asns = []) := by
  have hfits : path.attr.Fits := by
    cases path <;> exact ⟨hlen, trivial⟩
  refine ⟨_, attribSwitch_eq ⟨flags, path.attr, hfits⟩ w h, ?_⟩
  have hstored := path.stored_apply hnone
  have hall : path.asns.head?.getD [] = path.asns.flatten ↔ ∀ asns ∈ path.asns.tail, asns = [] := by
    cases path.asns with
    | nil => simp
    | cons first more => simp
  constructor
  · intro hrecorded
    exact hall.mp (hstored.symm.trans hrecorded.all)
  · intro htail
    have hwhole := hstored.trans (hall.mpr htail)
    refine ⟨hwhole, ?_⟩
    intro s asn hs hlast
    have hs' : path.stored (path.attr.apply w.update) = some s := hs
    rw [hs'] at hwhole
    exact AsPathSegment.valueAt_last (by rw [← hlast, ← hwhole]; rfl)

namespace Example

/-- `pkt2`. -/
def pkt2 : List UInt8 :=
  [0x00, 0x00, 0x00, 0x53, 0x40, 0x01, 0x01, 0x02, 0x40, 0x02, 0x12, 0x02, 0x04, 0x4e, 0x1a,
    0x05, 0x13, 0x60, 0x94, 0x20, 0xb6, 0x01, 0x03, 0x52, 0xfb, 0xff, 0x5e, 0x5b, 0xa0, 0xc0, 0x11, 0x20, 0x02,
    0x04, 0x00, 0x00, 0x4e, 0x1a, 0x00, 0x00, 0x05, 0x13, 0x00, 0x00, 0x60, 0x94, 0x00, 0x00, 0x20, 0xb6, 0x01,
    0x03, 0x00, 0x00, 0x52, 0xfb, 0x00, 0x00, 0xff, 0x5e, 0x00, 0x03, 0x00, 0xd2, 0x40, 0x03, 0x04, 0x50, 0xef,
    0xa0, 0x31, 0xc0, 0x07, 0x06, 0x20, 0xb6, 0xd4, 0x02, 0x65, 0x9c, 0xc0, 0x08, 0x04, 0x05, 0x13, 0x75, 0x30,
    0x14, 0xd9, 0x49, 0xf0]

/-- Its path: a sequence of four ASNs, and a set of three. -/
def path2 : WirePath :=
  .asPath [(2, ⟨4, [0x4e1a, 0x0513, 0x6094, 0x20b6], rfl⟩), (1, ⟨3, [0x52fb, 0xff5e, 0x5ba0], rfl⟩)]

/-- The walk in front of its value. -/
def walk2 : Walk := { update := { origin := 2 }, i := 10, readLen := 7 }

theorem pkt2_drop : pkt2.drop (walk2.i + 1) = path2.attr.payload ++ pkt2.drop 29 := rfl

end Example

/-- The set at the end of the path of `pkt2` is lost, and with it the origin. -/
theorem second_segment_lost :
    ∃ w', attribSwitch Example.pkt2 ⟨0x40, .asPath, 0x12⟩ Example.walk2 = .ok w' ∧
      ¬ Example.path2.RecordedIn w'.update := by
  have hswitch := attribSwitch_eq ⟨0x40, Example.path2.attr, by decide⟩ Example.walk2 Example.pkt2_drop
  exact ⟨_, hswitch, fun h => absurd h.all (by decide)⟩

theorem path_recorded_iff_of_pkt2 :
    ∃ w', attribSwitch Example.pkt2 ⟨0x40, .ofByte 2, 0x12⟩ Example.walk2 = .ok w' ∧
      (Example.path2.RecordedIn w'.update ↔ ∀ asns ∈ Example.path2.asns.tail, asns = []) :=
  path_recorded_iff Example.path2 rfl (by decide) Example.pkt2_drop

/-! ## Extended lengths -/

/-- A value of the kind that its code says. -/
def WireAttr.Meant (a : WireAttr) : Prop :=
  match a with
  | .community values => values.length ≠ 0
  | .other code _ => code ∉ WireAttr.storedCodes
  | _ => True

/-- The bit of the flags that announces a length of two bytes. -/
def Extended (flags : UInt8) : Prop := flags &&& 0x10 ≠ 0

instance (flags : UInt8) : Decidable (Extended flags) := inferInstanceAs (Decidable (_ ≠ _))

/-- An attribute whose flags say how long its length is. -/
structure WireAttribute where
  flags : UInt8
  value : WireAttr
  meant : value.Meant
  fits : value.payload.length ≤ if Extended flags then 65535 else 255

namespace WireAttribute

def lengthBytes (a : WireAttribute) : List UInt8 :=
  if Extended a.flags then beBytes 2 a.value.payload.length
  else [UInt8.ofNat a.value.payload.length]

def encode (a : WireAttribute) : List UInt8 :=
  a.flags :: a.value.code :: (a.lengthBytes ++ a.value.payload)

/-- What the passes over some attributes leave of an update. -/
def applyAll (u : BgpUpdate) (as : List WireAttribute) : BgpUpdate := as.foldl (fun u a => a.value.apply u) u

theorem length_encode (a : WireAttribute) :
    a.encode.length = (if Extended a.flags then 4 else 3) + a.value.payload.length := by
  rw [encode, lengthBytes]
  split <;> simp <;> omega

theorem length_le (a : WireAttribute) (h : ¬ Extended a.flags) : a.value.payload.length ≤ 255 := by
  have hfits := a.fits
  rwa [if_neg h] at hfits

/-- An attribute without the bit. -/
def plain (a : WireAttribute) (h : ¬ Extended a.flags) : PathAttribute :=
  ⟨a.flags, a.value, a.length_le h, a.meant⟩

theorem encode_plain (a : WireAttribute) (h : ¬ Extended a.flags) : (a.plain h).encode = a.encode := by
  rw [encode, lengthBytes, if_neg h]
  rfl

end WireAttribute

/-! ## The values of attributes -/

/-- A path: the type of its first segment, and the ASNs of all its segments. -/
def wholePath (segments : List (UInt8 × List UInt32)) : Option (UInt8 × List UInt32) :=
  segments.head?.map fun first => (first.1, segments.flatMap Prod.snd)

/-- The values that attributes give to an update. Paths stand apart, with the ASNs of all their segments. -/
structure AttribValues where
  update : BgpUpdate
  asPath : Option (UInt8 × List UInt32)
  as4Path : Option (UInt8 × List UInt32)

namespace AttribValues

/-- The values that an update holds. -/
def of (u : BgpUpdate) : AttribValues :=
  ⟨{ u with asPath := none, as4Path := none }, u.asPath.map fun s => (s.segType, s.asns),
    u.as4Path.map fun s => (s.segType, s.asns)⟩

/-- With the value of one more attribute. -/
def say (said : AttribValues) : WireAttr → AttribValues
  | .asPath segments =>
      { said with asPath := wholePath (segments.map fun s => (s.1, s.2.elems.map UInt16.toUInt32)) }
  | .as4Path segments => { said with as4Path := wholePath (segments.map fun s => (s.1, s.2.elems)) }
  | a => { said with update := a.apply said.update }

def sayAll (said : AttribValues) (as : List WireAttribute) : AttribValues :=
  as.foldl (fun said a => said.say a.value) said

end AttribValues

/-- No ASN of a path stands behind its first segment. -/
def WireAttr.OneSegment : WireAttr → Prop
  | .asPath segments => ∀ s ∈ segments.tail, s.2.elems = []
  | .as4Path segments => ∀ s ∈ segments.tail, s.2.elems = []
  | _ => True

instance : DecidablePred WireAttr.OneSegment
  | .asPath segments => inferInstanceAs (Decidable (∀ s ∈ segments.tail, s.2.elems = []))
  | .as4Path segments => inferInstanceAs (Decidable (∀ s ∈ segments.tail, s.2.elems = []))
  | .origin _ | .nextHop _ | .med _ | .localPref _ | .atomicAggregate | .aggregator _ _ | .community _
  | .as4Aggregator _ _ | .other _ _ => isTrue trivial

/-! ## The walk -/

/-- The walk after some passes of its loop. -/
def walkAfter (packet : List UInt8) (pathAttribLen : UInt16) : Nat → Walk → Option Walk
  | 0, w => some w
  | k + 1, w =>
      if w.readLen < pathAttribLen then
        (attribPass packet w).toOption.bind (walkAfter packet pathAttribLen k)
      else none

/-- The walk stays at the attributes: after each of them it is in front of the next one, and its update holds the values
of those behind it; and it ends behind the last one. -/
structure WalkAligned (packet : List UInt8) (pathAttribLen : UInt16) (as : List WireAttribute) (w : Walk) :
    Prop where
  each : ∀ k ≤ as.length, ∃ w', walkAfter packet pathAttribLen k w = some w' ∧
    w'.i = w.i + ((as.take k).flatMap WireAttribute.encode).length ∧
    AttribValues.of w'.update = (AttribValues.of w.update).sayAll (as.take k)
  ends : ∀ fuel, as.length < fuel → ∃ w', attribLoop packet pathAttribLen fuel w = .ok w' ∧
    w'.i = w.i + (as.flatMap WireAttribute.encode).length ∧
    AttribValues.of w'.update = (AttribValues.of w.update).sayAll as

section Aligned

variable {pathAttribLen : UInt16} {as : List WireAttribute} {u : BgpUpdate} {a : WireAttr} {w w' : Walk}

theorem oneSegment_of_said (h : AttribValues.of (a.apply u) = (AttribValues.of u).say a) : a.OneSegment := by
  cases a with
  | asPath segments =>
      cases segments with
      | nil => exact fun s hs => absurd hs List.not_mem_nil
      | cons first more =>
          have hpath := congrArg Prod.snd (Option.some.inj (congrArg AttribValues.asPath h))
          have hmore := List.flatMap_eq_nil_iff.mp (List.self_eq_append_right.mp hpath)
          exact fun s hs => List.map_eq_nil_iff.mp (hmore _ (List.mem_map_of_mem hs))
  | as4Path segments =>
      cases segments with
      | nil => exact fun s hs => absurd hs List.not_mem_nil
      | cons first more =>
          have hpath := congrArg Prod.snd (Option.some.inj (congrArg AttribValues.as4Path h))
          have hmore := List.flatMap_eq_nil_iff.mp (List.self_eq_append_right.mp hpath)
          exact fun s hs => hmore _ (List.mem_map_of_mem hs)
  | _ => trivial

/-- What is kept of an attribute is what it says. A path of no segments says that there is none. -/
theorem said_apply (h : a.OneSegment) (hpath : a = .asPath [] → u.asPath = none)
    (has4 : a = .as4Path [] → u.as4Path = none) : AttribValues.of (a.apply u) = (AttribValues.of u).say a := by
  cases a with
  | asPath segments =>
      cases segments with
      | nil => simp [WireAttr.apply, AttribValues.say, AttribValues.of, wholePath, hpath rfl]
      | cons first more =>
          have hmore : more.flatMap (fun s => s.2.elems.map UInt16.toUInt32) = [] := by
            refine List.flatMap_eq_nil_iff.mpr fun s hs => ?_
            rw [h s hs, List.map_nil]
          simp [WireAttr.apply, AttribValues.say, AttribValues.of, wholePath, AsPathSegment.asns, Counted.map,
            List.flatMap_map, hmore]
  | as4Path segments =>
      cases segments with
      | nil => simp [WireAttr.apply, AttribValues.say, AttribValues.of, wholePath, has4 rfl]
      | cons first more =>
          have hmore : more.flatMap (fun s => s.2.elems) = [] := List.flatMap_eq_nil_iff.mpr h
          simp [WireAttr.apply, AttribValues.say, AttribValues.of, wholePath, AsPathSegment.asns, List.flatMap_map,
            hmore]
  | _ => rfl

theorem apply_asPath (h : a.code ≠ 2) : (a.apply u).asPath = u.asPath := by
  cases a with
  | asPath segments => exact absurd rfl h
  | as4Path segments => cases segments <;> rfl
  | _ => rfl

theorem apply_as4Path (h : a.code ≠ 0x11) : (a.apply u).as4Path = u.as4Path := by
  cases a with
  | as4Path segments => exact absurd rfl h
  | asPath segments => cases segments <;> rfl
  | _ => rfl

/-- Attributes of distinct types leave of an update what they say. -/
theorem said_applyAll (hdistinct : (as.map fun a => a.value.code).Nodup) (hone : ∀ a ∈ as, a.value.OneSegment)
    (hpath : ∀ a ∈ as, a.value = .asPath [] → u.asPath = none)
    (has4 : ∀ a ∈ as, a.value = .as4Path [] → u.as4Path = none) :
    AttribValues.of (WireAttribute.applyAll u as) = (AttribValues.of u).sayAll as := by
  induction as generalizing u with
  | nil => rfl
  | cons a as ih =>
      obtain ⟨hnew, hdistinct⟩ := List.nodup_cons.mp hdistinct
      rw [List.forall_mem_cons] at hone hpath has4
      have hother : ∀ a' ∈ as, a.value.code ≠ a'.value.code :=
        fun a' ha' hcode => hnew (List.mem_map.mpr ⟨a', ha', hcode.symm⟩)
      have hnext := ih (u := a.value.apply u) hdistinct hone.2
        (fun a' ha' hempty => by
          have hcode := hother a' ha'
          rw [hempty] at hcode
          rw [apply_asPath hcode]
          exact hpath.2 a' ha' hempty)
        (fun a' ha' hempty => by
          have hcode := hother a' ha'
          rw [hempty] at hcode
          rw [apply_as4Path hcode]
          exact has4.2 a' ha' hempty)
      have hfirst := said_apply hone.1 hpath.1 has4.1
      rw [WireAttribute.applyAll, List.foldl_cons, AttribValues.sayAll, List.foldl_cons, ← hfirst]
      exact hnext

theorem walkAfter_succ {k : Nat} (h : walkAfter packet pathAttribLen k w = some w') :
    walkAfter packet pathAttribLen (k + 1) w = walkAfter packet pathAttribLen 1 w' := by
  induction k generalizing w with
  | zero =>
      cases h
      rfl
  | succ k ih =>
      rw [walkAfter] at h ⊢
      split at h
      · rename_i hlt
        obtain ⟨w₁, hpass, h⟩ := Option.bind_eq_some_iff.mp h
        rw [if_pos hlt, hpass, Option.bind_some, ih h]
      · cases h

theorem attribLoop_walkAfter {k : Nat} (h : walkAfter packet pathAttribLen k w = some w') (fuel : Nat) :
    attribLoop packet pathAttribLen (fuel + k) w = attribLoop packet pathAttribLen fuel w' := by
  induction k generalizing w with
  | zero =>
      cases h
      rfl
  | succ k ih =>
      rw [walkAfter] at h
      split at h
      · rename_i hlt
        obtain ⟨w₁, hpass, h⟩ := Option.bind_eq_some_iff.mp h
        rw [← Nat.add_assoc, attribLoop_succ, if_pos hlt, Checked.toOption_eq_some.mp hpass,
          Checked.ok_bind, ih h]
      · cases h

theorem walkAfter_plain (hplain : ∀ a ∈ as, ¬ Extended a.flags)
    (hlen : w.readLen.toNat + (as.flatMap WireAttribute.encode).length ≤ pathAttribLen.toNat)
    (h : packet.drop (w.i + 1) = as.flatMap WireAttribute.encode ++ rest) {k : Nat} (hk : k ≤ as.length) :
    ∃ w', walkAfter packet pathAttribLen k w = some w' ∧
      w'.i = w.i + ((as.take k).flatMap WireAttribute.encode).length ∧
      w'.readLen.toNat = w.readLen.toNat + ((as.take k).flatMap WireAttribute.encode).length ∧
      w'.update = WireAttribute.applyAll w.update (as.take k) := by
  induction k generalizing as w with
  | zero => exact ⟨w, rfl, by simp, by simp, rfl⟩
  | succ k ih =>
      cases as with
      | nil => cases hk
      | cons a as =>
          have hpal := pathAttribLen.toNat_lt
          have hbit := hplain a (by simp)
          have hencode := a.encode_plain hbit
          have hal := length_encode_attribute (a.plain hbit)
          rw [List.flatMap_cons, List.append_assoc, ← hencode] at h
          rw [List.flatMap_cons, List.length_append, ← hencode] at hlen
          have hlt : w.readLen < pathAttribLen := by
            rw [UInt16.lt_iff_toNat_lt]
            omega
          have hread := Walk.toNat_past_readLen (w := w) (a := a.plain hbit) (by omega)
          have hnext : packet.drop ((w.past (a.plain hbit)).i + 1) =
              as.flatMap WireAttribute.encode ++ rest := by
            rw [Walk.past, Nat.add_right_comm]
            exact drop_add_of_drop h
          obtain ⟨w', hafter, hi, hreadLen, hupdate⟩ := ih (w := w.past (a.plain hbit))
            (fun a' ha' => hplain a' (by simp [ha'])) (by omega) hnext (by simpa using hk)
          have hpass : (attribPass packet w).toOption = some (w.past (a.plain hbit)) := by
            rw [attribPass_eq _ w h]
            rfl
          refine ⟨w', ?_, ?_, ?_, hupdate⟩
          · rw [walkAfter, if_pos hlt, hpass, Option.bind_some, hafter]
          · rw [hi, List.take_succ_cons, List.flatMap_cons, List.length_append, ← hencode, Walk.past,
              Nat.add_assoc]
          · rw [hreadLen, hread, List.take_succ_cons, List.flatMap_cons, List.length_append, ← hencode,
              Nat.add_assoc]

/-- A pass moves the walk by no more than the first byte of the length says. -/
theorem attribPass_le {flags code length : UInt8}
    (h : packet.drop (w.i + 1) = flags :: code :: length :: rest) (hpass : attribPass packet w = .ok w') :
    w'.i ≤ w.i + 3 + length.toNat := by
  rw [attribPass_of_drop h] at hpass
  obtain ⟨u, rfl⟩ := attribSwitch_moves hpass
  have hsize : (valueSize (.ofByte code) length).toNat ≤ length.toNat := by
    unfold valueSize
    split
    · split
      · exact Nat.zero_le _
      · exact toNat_pos (by assumption)
    · exact Nat.zero_le _
    · exact Nat.le_refl _
  simp only [Walk.advance]
  omega

/-- The second byte of a length is never read as one, so a pass ends inside the attribute. -/
theorem attribPass_extended {a : WireAttribute} (hbit : Extended a.flags)
    (h : packet.drop (w.i + 1) = a.encode ++ rest) (hpass : attribPass packet w = .ok w') :
    w'.i < w.i + a.encode.length := by
  have hfits := a.fits
  have hlength := a.length_encode
  rw [if_pos hbit] at hfits hlength
  obtain ⟨first, second, hbytes, hvalue⟩ := beBytes_two a.value.payload.length (by omega)
  have hencode : a.encode = a.flags :: a.value.code :: first :: second :: a.value.payload := by
    rw [WireAttribute.encode, WireAttribute.lengthBytes, if_pos hbit, hbytes]
    rfl
  rw [hencode] at h
  have hle := attribPass_le h hpass
  rw [toNat_be16] at hvalue
  omega

/-- A walk that stays at its attributes meets none that carries the bit. -/
theorem WalkAligned.plain (haligned : WalkAligned packet pathAttribLen as w)
    (h : packet.drop (w.i + 1) = as.flatMap WireAttribute.encode ++ rest) : ∀ a ∈ as, ¬ Extended a.flags := by
  intro a ha hbit
  obtain ⟨k, hk, hget⟩ := List.mem_iff_getElem.mp ha
  obtain ⟨w₁, hafter, hi, -⟩ := haligned.each k (Nat.le_of_lt hk)
  obtain ⟨w₂, hafter', hi', -⟩ := haligned.each (k + 1) hk
  rw [walkAfter_succ hafter, walkAfter] at hafter'
  split at hafter'
  · obtain ⟨w₃, hpass, hw₃⟩ := Option.bind_eq_some_iff.mp hafter'
    cases hw₃
    rw [← List.take_append_drop k as, List.flatMap_append, List.drop_eq_getElem_cons hk, hget,
      List.flatMap_cons, List.append_assoc, List.append_assoc] at h
    have hhere : packet.drop (w₁.i + 1) =
        a.encode ++ ((as.drop (k + 1)).flatMap WireAttribute.encode ++ rest) := by
      rw [hi, Nat.add_right_comm]
      exact drop_add_of_drop h
    have hlt := attribPass_extended hbit hhere (Checked.toOption_eq_some.mp hpass)
    rw [List.take_succ_eq_append_getElem hk, hget, List.flatMap_append, List.length_append,
      List.flatMap_singleton] at hi'
    omega
  · cases hafter'

/-- Nor one with a path of which it keeps only a part. -/
theorem WalkAligned.oneSegment (haligned : WalkAligned packet pathAttribLen as w)
    (hplain : ∀ a ∈ as, ¬ Extended a.flags)
    (hlen : w.readLen.toNat + (as.flatMap WireAttribute.encode).length ≤ pathAttribLen.toNat)
    (h : packet.drop (w.i + 1) = as.flatMap WireAttribute.encode ++ rest) : ∀ a ∈ as, a.value.OneSegment := by
  intro a ha
  obtain ⟨k, hk, hget⟩ := List.mem_iff_getElem.mp ha
  have hkept : ∀ k ≤ as.length, AttribValues.of (WireAttribute.applyAll w.update (as.take k)) =
      (AttribValues.of w.update).sayAll (as.take k) := by
    intro k hk
    obtain ⟨w₁, hafter, -, hsaid⟩ := haligned.each k hk
    obtain ⟨w₂, hafter', -, -, hupdate⟩ := walkAfter_plain hplain hlen h hk
    cases hafter.symm.trans hafter'
    rw [← hupdate]
    exact hsaid
  have hnext := hkept (k + 1) hk
  rw [List.take_succ_eq_append_getElem hk, hget, WireAttribute.applyAll, List.foldl_append, AttribValues.sayAll,
    List.foldl_append] at hnext
  have hhere : AttribValues.of (as.take k |>.foldl (fun u a => a.value.apply u) w.update) =
      (as.take k).foldl (fun said a => said.say a.value) (AttribValues.of w.update) := hkept k (Nat.le_of_lt hk)
  rw [← hhere] at hnext
  exact oneSegment_of_said hnext

/-- Over attributes of distinct types, the walk stays at them just when none of them carries the bit and none is a path
with an ASN behind its first segment. -/
theorem walkAligned_iff
    (hlen : w.readLen.toNat + (as.flatMap WireAttribute.encode).length = pathAttribLen.toNat)
    (h : packet.drop (w.i + 1) = as.flatMap WireAttribute.encode ++ rest)
    (hdistinct : (as.map fun a => a.value.code).Nodup)
    (hfresh : w.update.asPath = none ∧ w.update.as4Path = none) :
    WalkAligned packet pathAttribLen as w ↔ ∀ a ∈ as, ¬ Extended a.flags ∧ a.value.OneSegment := by
  constructor
  · intro haligned a ha
    have hplain := haligned.plain h
    exact ⟨hplain a ha, haligned.oneSegment hplain (Nat.le_of_eq hlen) h a ha⟩
  · intro hall
    have hplain : ∀ a ∈ as, ¬ Extended a.flags := fun a ha => (hall a ha).1
    have hsaid : ∀ k, AttribValues.of (WireAttribute.applyAll w.update (as.take k)) =
        (AttribValues.of w.update).sayAll (as.take k) := by
      intro k
      refine said_applyAll ?_ (fun a ha => (hall a (List.mem_of_mem_take ha)).2) (fun _ _ _ => hfresh.1)
        fun _ _ _ => hfresh.2
      exact hdistinct.sublist ((List.take_sublist k as).map _)
    refine ⟨?_, ?_⟩
    · intro k hk
      obtain ⟨w', hafter, hi, -, hupdate⟩ := walkAfter_plain hplain (Nat.le_of_eq hlen) h hk
      exact ⟨w', hafter, hi, hupdate ▸ hsaid k⟩
    · intro fuel hfuel
      obtain ⟨w', hafter, hi, hread, hupdate⟩ := walkAfter_plain hplain (Nat.le_of_eq hlen) h (Nat.le_refl _)
      have hwhole := hsaid as.length
      rw [List.take_length] at hi hread hupdate hwhole
      obtain ⟨more, rfl⟩ : ∃ more, fuel = more + 1 + as.length := ⟨fuel - as.length - 1, by omega⟩
      refine ⟨w', ?_, hi, hupdate ▸ hwhole⟩
      have hstop : ¬ w'.readLen < pathAttribLen := by
        rw [UInt16.lt_iff_toNat_lt, hread, hlen]
        exact Nat.lt_irrefl _
      rw [attribLoop_walkAfter hafter, attribLoop_succ, if_neg hstop]

end Aligned

namespace Example

/-- ORIGIN, a path of one segment, MULTI_EXIT_DISC and the same path in its other format. -/
def plainAttributes : List WireAttribute :=
  [⟨0x40, .origin 1, trivial, by decide⟩, ⟨0x40, .asPath [(2, ⟨2, [64512, 64514], rfl⟩)], trivial, by decide⟩,
    ⟨0x80, .med 7, trivial, by decide⟩, ⟨0xc0, .as4Path [(2, ⟨2, [64512, 64514], rfl⟩)], trivial, by decide⟩]

/-- An ORIGIN with a length of two bytes. -/
def longAttributes : List WireAttribute := [⟨0x50, .origin 1, trivial, by decide⟩]

/-- The path of `pkt2`. -/
def pathAttributes : List WireAttribute := [⟨0x40, path2.attr, trivial, by decide⟩]

end Example

/-- The first byte of a length is read as all of it, and the second one as the flags of another attribute. Of a path
that is read, the second segment is lost. -/
theorem extended_misread :
    ¬ WalkAligned ([0, 0, 0, 5] ++ Example.longAttributes.flatMap WireAttribute.encode) 5
        Example.longAttributes { update := {}, i := 3, readLen := 0 } ∧
      ¬ WalkAligned ([0, 0, 0, 21] ++ Example.pathAttributes.flatMap WireAttribute.encode) 21
        Example.pathAttributes { update := {}, i := 3, readLen := 0 } := by
  constructor
  · intro h
    obtain ⟨w', hafter, hi, -⟩ := h.each 1 (by decide)
    have hpass : walkAfter ([0, 0, 0, 5] ++ Example.longAttributes.flatMap WireAttribute.encode) 5 1
        { update := {}, i := 3, readLen := 0 } = some { update := {}, i := 6, readLen := 3 } := by decide
    cases hafter.symm.trans hpass
    exact absurd hi (by decide)
  · intro h
    have hdrop : ([0, 0, 0, 21] ++ Example.pathAttributes.flatMap WireAttribute.encode).drop 4 =
        Example.pathAttributes.flatMap WireAttribute.encode ++ [] := by decide
    have hone := h.oneSegment (by decide) (by decide) hdrop _ List.mem_cons_self
    exact absurd hone (by decide)

theorem walkAligned_plain :
    WalkAligned ([0, 0, 0, 33] ++ Example.plainAttributes.flatMap WireAttribute.encode) 33
      Example.plainAttributes { update := {}, i := 3, readLen := 0 } := by
  have hdrop : ([0, 0, 0, 33] ++ Example.plainAttributes.flatMap WireAttribute.encode).drop 4 =
      Example.plainAttributes.flatMap WireAttribute.encode ++ [] := by decide
  exact (walkAligned_iff (by decide) hdrop (by decide) ⟨rfl, rfl⟩).mpr (by decide)

end Log2Bgp
