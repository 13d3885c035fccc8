import HidDescriptor.Proofs.Feeding
import HidDescriptor.Proofs.Relocation
import HidDescriptor.Proofs.Stopping

/-! # Splitting and feeding

There are two ways to get from bytes to records: `decode` takes a token off the bytes and feeds it
before it looks for the next one, and `Tokens.ofBytes` takes off all tokens, which can be fed
afterwards. Both come to the same thing (`decode_eq_run`). The difference is in which fault is seen
first: splitting sees an item that is cut off before any token has been fed, whereas for `decode` it
comes last.

Bytes may be split piece by piece as well, if each piece is of whole items, and the tokens be fed
piece by piece. Each piece counts its offsets from zero. That is all that can be told from the
results (`feedAll_ofBytes_append`). -/

namespace HidDescriptor

/-! ## All tokens or a fault -/

namespace Tokens

theorem whole_eq_ok_iff (tokens : Tokens) (ts : List Token) :
    tokens.whole = .ok ts ↔ tokens.fault = none ∧ ts = tokens.items := by
  rw [whole]
  cases tokens.fault <;> simp [eq_comm]

theorem whole_eq_error_iff (tokens : Tokens) (fault : Fault) :
    tokens.whole = .error fault ↔ tokens.fault = some fault := by
  rw [whole]
  cases tokens.fault <;> simp

variable {bytes : List UInt8} {cut : Fault}

/-- In front of the item that is cut off there are the same items, and they are whole. -/
theorem ofBytes_take_cut (h : (ofBytes bytes).fault = some cut) :
    ofBytes (bytes.take cut.offset) = ⟨(ofBytes bytes).items, none⟩ := by
  have hsplits := splits_ofBytes bytes
  rw [← (hsplits.offset_fault h).2]
  exact ofBytesAt_bytes (List.prefix_refl _)

/-- An item that is cut off stands behind all others. -/
theorem offset_lt_cut (h : (ofBytes bytes).fault = some cut) {t : Token}
    (ht : t ∈ (ofBytes bytes).items) : t.offset < cut.offset := by
  have hsplits := splits_ofBytes bytes
  rw [hsplits.offset_cut h]
  exact (hsplits.offset_of_parts (List.append_nil _).symm).1 t ht

end Tokens

/-! ## Split first, and fed afterwards -/

def Run.fault? (run : Run) : Option Fault :=
  match run.outcome with
  | .ok _ => none
  | .error fault => some fault

variable {bytes : List UInt8}

/-- A bracket without its counterpart comes before an item that is cut off. -/
theorem fault_decode_or (bytes : List UInt8) :
    (decode bytes).fault =
      (Context.run {} (Tokens.ofBytes bytes).items).fault?.or (Tokens.ofBytes bytes).fault := by
  rw [fault_decode, Run.fault?]
  cases (Context.run {} (Tokens.ofBytes bytes).items).outcome <;> rfl

/-- A token is refused for want of a bracket to close. -/
theorem Context.refused_of_fault? {c : Context} {ts : List Token} {refused : Fault}
    (h : (c.run ts).fault? = some refused) :
    (refused.cause = .popWithoutPush ∨ refused.cause = .endWithoutCollection) ∧
      ∃ t ∈ ts, refused.offset = t.offset := by
  have houtcome : (c.run ts).outcome = .error refused := by
    unfold Run.fault? at h
    split at h
    · cases h
    · cases h
      assumption
  obtain ⟨taken, t, rest, d, rfl, -, hfeed⟩ := exists_refused houtcome
  constructor
  · rcases feedItem_eq_error_iff.mp hfeed with ⟨-, -, rfl⟩ | ⟨-, -, rfl⟩
    · left
      rfl
    · right
      rfl
  · refine ⟨t, ?_, offset_of_feed_error hfeed⟩
    exact List.mem_append_right _ List.mem_cons_self

/-- **Splitting first makes no difference.** If the bytes are whole items, decoding gives what comes
of these items when they are fed to a fresh context up to the first that is refused. If not, the
last item is cut off and the items before it are whole; decoding gives the records of those, and the
fault is the item that is cut off, unless one of those items is refused, which then is the fault and
stands further in front. In either case the items in front of the fault are all taken, and the
records are theirs. -/
theorem decode_eq_run (bytes : List UInt8) :
    (∀ ts, (Tokens.ofBytes bytes).whole = .ok ts →
        (decode bytes).records = (Context.run {} ts).records ∧
          (decode bytes).fault = (Context.run {} ts).fault?) ∧
      (∀ cut, (Tokens.ofBytes bytes).whole = .error cut →
        (∃ needed available, cut.cause = .truncated needed available) ∧
          ∃ ts, (Tokens.ofBytes (bytes.take cut.offset)).whole = .ok ts ∧
            (decode bytes).records = (Context.run {} ts).records ∧
            ((Context.run {} ts).fault? = none ∧ (decode bytes).fault = some cut ∨
              ∃ refused, (Context.run {} ts).fault? = some refused ∧
                (decode bytes).fault = some refused ∧
                (refused.cause = .popWithoutPush ∨ refused.cause = .endWithoutCollection) ∧
                refused.offset < cut.offset)) ∧
      ∃ d, Context.run {} (itemsDecoded bytes) = ⟨(decode bytes).records, .ok d⟩ := by
  refine ⟨?_, ?_, run_itemsDecoded bytes⟩
  · intro ts h
    obtain ⟨hwhole, rfl⟩ := (Tokens.whole_eq_ok_iff _ _).mp h
    refine ⟨records_decode bytes, ?_⟩
    rw [fault_decode_or, hwhole, Option.or_none]
  · intro cut h
    have hcut := (Tokens.whole_eq_error_iff _ _).mp h
    have hsplits := Tokens.splits_ofBytes bytes
    have hfront : (Tokens.ofBytes (bytes.take cut.offset)).whole =
        .ok (Tokens.ofBytes bytes).items := by
      rw [Tokens.ofBytes_take_cut hcut]
      rfl
    constructor
    · obtain ⟨header, rest, -, -, rfl⟩ := hsplits.cut cut hcut
      exact ⟨_, _, rfl⟩
    · refine ⟨_, hfront, records_decode bytes, ?_⟩
      have hfault := fault_decode_or bytes
      rw [hcut] at hfault
      cases hrefused : (Context.run {} (Tokens.ofBytes bytes).items).fault? with
      | none =>
          left
          rw [hrefused] at hfault
          exact ⟨rfl, hfault⟩
      | some refused =>
          right
          rw [hrefused] at hfault
          obtain ⟨hcause, t, ht, hoffset⟩ := Context.refused_of_fault? hrefused
          refine ⟨refused, rfl, hfault, hcause, ?_⟩
          rw [hoffset]
          exact Tokens.offset_lt_cut hcut ht

/-- An End Collection too many among whole items, and a Pop too many in front of an item that is cut
off. Without the Pop it is that item that is the fault. -/
theorem decode_eq_run_refused :
    (∃ bytes ts, (Tokens.ofBytes bytes).whole = .ok ts ∧ ts.length = 3 ∧
      (Context.run {} ts).fault? = some ⟨2, .endWithoutCollection⟩ ∧
      (decode bytes).records = (Context.run {} ts).records ∧
      (decode bytes).fault = (Context.run {} ts).fault?) ∧
    (∃ bytes, (Tokens.ofBytes bytes).whole = .error ⟨3, .truncated 2 1⟩ ∧
      (decode bytes).fault = some ⟨2, .popWithoutPush⟩ ∧
      ∃ ts, (Tokens.ofBytes (bytes.take 3)).whole = .ok ts ∧
        (decode bytes).records = (Context.run {} ts).records) ∧
    ∃ bytes, (Tokens.ofBytes bytes).whole = .error ⟨2, .truncated 2 1⟩ ∧
      (decode bytes).fault = some ⟨2, .truncated 2 1⟩ ∧
      ∃ ts, (Tokens.ofBytes (bytes.take 2)).whole = .ok ts ∧
        (decode bytes).records = (Context.run {} ts).records := by
  refine ⟨?_, ?_, ?_⟩
  · have h : (Tokens.ofBytes [0x05, 0x01, 0xc0, 0x09, 0x02]).whole =
        .ok [⟨⟨0x05, [0x01]⟩, 0⟩, ⟨⟨0xc0, []⟩, 2⟩, ⟨⟨0x09, [0x02]⟩, 3⟩] := by
      decide +kernel
    obtain ⟨hwhole, -, -⟩ := decode_eq_run [0x05, 0x01, 0xc0, 0x09, 0x02]
    exact ⟨_, _, h, rfl, by decide +kernel, hwhole _ h⟩
  · have h : (Tokens.ofBytes [0x05, 0x01, 0xb4, 0x26, 0xff]).whole =
        .error ⟨3, .truncated 2 1⟩ := by
      decide +kernel
    obtain ⟨-, hcut, -⟩ := decode_eq_run [0x05, 0x01, 0xb4, 0x26, 0xff]
    obtain ⟨-, ts, hts, hrecords, -⟩ := hcut _ h
    exact ⟨_, h, by decide +kernel, ts, hts, hrecords⟩
  · have h : (Tokens.ofBytes [0x05, 0x01, 0x26, 0xff]).whole = .error ⟨2, .truncated 2 1⟩ := by
      decide +kernel
    obtain ⟨-, hcut, -⟩ := decode_eq_run [0x05, 0x01, 0x26, 0xff]
    obtain ⟨-, ts, hts, hrecords, -⟩ := hcut _ h
    exact ⟨_, h, by decide +kernel, ts, hts, hrecords⟩

/-! ## Split in pieces -/

/-- The same result from another place: the offset is that of the fault, or of the field. -/
def relocateResult (move : Nat → Nat) (result : Except Fault (Option Record)) :
    Except Fault (Option Record) :=
  (result.mapError (·.relocate move)).map fun record => record.map (·.relocate move)

/-- Feeding on after faults, tokens in other places have the same results, from there. -/
theorem Context.feedAll_relocate {move : Nat → Nat} (c : Context) (ts : List Token) :
    c.feedAll (ts.map (·.relocate move)) =
      ((c.feedAll ts).1, (c.feedAll ts).2.map (relocateResult move)) := by
  induction ts generalizing c with
  | nil => rfl
  | cons t ts ih =>
      rw [List.map_cons]
      cases hfeed : c.feed t with
      | error fault =>
          rw [feedAll_of_error (feed_relocate_of_error hfeed), feedAll_of_error hfeed, ih c]
          rfl
      | ok taken =>
          obtain ⟨d, record⟩ := taken
          rw [feedAll_of_ok (feed_relocate_of_ok hfeed), feedAll_of_ok hfeed, ih d]
          rfl

/-- Whole items behind whole items are whole items. Those behind are further along. -/
theorem Tokens.ofBytes_append_whole {front back : List UInt8} {ts us : List Token}
    (hfront : (ofBytes front).whole = .ok ts) (hback : (ofBytes back).whole = .ok us) :
    (ofBytes (front ++ back)).whole =
      .ok (ts ++ us.map (·.relocate (front.length + ·))) := by
  obtain ⟨hts, rfl⟩ := (whole_eq_ok_iff _ _).mp hfront
  obtain ⟨hus, rfl⟩ := (whole_eq_ok_iff _ _).mp hback
  have hmove : ∀ n, front.length + (0 + n) = front.length + 0 + n := by
    intro n
    exact (Nat.add_assoc _ 0 n).symm
  have hmoved : ofBytesAt front.length back = (ofBytes back).relocate (front.length + ·) :=
    @ofBytesAt_relocate (front.length + ·) 0 hmove back
  rw [ofBytes_append_of_whole hts, hmoved, whole_eq_ok_iff]
  constructor
  · show (ofBytes back).fault.map _ = none
    rw [hus]
    rfl
  · rfl

/-- **Feeding in pieces.** Two byte strings of whole items are whole items together. Fed to any
context, and on after faults, these leave the context in which the items of the first string and
then those of the second leave it. Their results are the results of the one and then of the other,
in which every fault and every field has moved along by the length of the first string. -/
theorem feedAll_ofBytes_append {front back : List UInt8} {ts us : List Token}
    (hfront : (Tokens.ofBytes front).whole = .ok ts)
    (hback : (Tokens.ofBytes back).whole = .ok us) (c : Context) :
    ∃ all, (Tokens.ofBytes (front ++ back)).whole = .ok all ∧
      c.feedAll all =
        (((c.feedAll ts).1.feedAll us).1,
          (c.feedAll ts).2 ++
            ((c.feedAll ts).1.feedAll us).2.map (relocateResult (front.length + ·))) := by
  refine ⟨_, Tokens.ofBytes_append_whole hfront hback, ?_⟩
  rw [Context.feedAll_append, Context.feedAll_relocate]

/-- A context with a saved table and an open collection. The first piece has an End Collection too
many and leaves a usage behind, the second one a Pop too many and a field, which takes the usage. -/
theorem feedAll_ofBytes_append_refused :
    ∃ (c : Context) (front back : List UInt8) (ts us : List Token) (f : FieldRecord),
      c = ⟨{ usagePage := some 1 }, [{ usagePage := some 9 }], {}, [⟨1⟩]⟩ ∧
      (Tokens.ofBytes front).whole = .ok ts ∧ (Tokens.ofBytes back).whole = .ok us ∧
      (c.feedAll ts).2 = [.ok (some .endCollection), .error ⟨1, .endWithoutCollection⟩,
        .ok (some (.usage ⟨none, 0x30⟩))] ∧
      ((c.feedAll ts).1.feedAll us).2 =
        [.ok none, .error ⟨1, .popWithoutPush⟩, .ok (some (.field f))] ∧
      f.offset = 2 ∧ f.globals = { usagePage := some 9 } ∧
      f.locals = { usages := #[⟨none, 0x30⟩] } ∧
      ∃ all, (Tokens.ofBytes (front ++ back)).whole = .ok all ∧
        (c.feedAll all).2 = [.ok (some .endCollection), .error ⟨1, .endWithoutCollection⟩,
          .ok (some (.usage ⟨none, 0x30⟩)), .ok none, .error ⟨5, .popWithoutPush⟩,
          .ok (some (.field { f with offset := 6 }))] := by
  let c : Context := ⟨{ usagePage := some 1 }, [{ usagePage := some 9 }], {}, [⟨1⟩]⟩
  let f : FieldRecord := ⟨2, .input, ⟨2⟩, { usagePage := some 9 }, { usages := #[⟨none, 0x30⟩] }, []⟩
  let ts : List Token := [⟨⟨0xc0, []⟩, 0⟩, ⟨⟨0xc0, []⟩, 1⟩, ⟨⟨0x09, [0x30]⟩, 2⟩]
  let us : List Token := [⟨⟨0xb4, []⟩, 0⟩, ⟨⟨0xb4, []⟩, 1⟩, ⟨⟨0x81, [0x02]⟩, 2⟩]
  have hfront : (Tokens.ofBytes [0xc0, 0xc0, 0x09, 0x30]).whole = .ok ts := by decide +kernel
  have hback : (Tokens.ofBytes [0xb4, 0xb4, 0x81, 0x02]).whole = .ok us := by decide +kernel
  have hts : (c.feedAll ts).2 = [.ok (some .endCollection), .error ⟨1, .endWithoutCollection⟩,
      .ok (some (.usage ⟨none, 0x30⟩))] := by
    decide +kernel
  have hus : ((c.feedAll ts).1.feedAll us).2 =
      [.ok none, .error ⟨1, .popWithoutPush⟩, .ok (some (.field f))] := by
    decide +kernel
  obtain ⟨all, hall, hfeed⟩ := feedAll_ofBytes_append hfront hback c
  refine ⟨c, _, _, ts, us, f, rfl, hfront, hback, hts, hus, rfl, rfl, rfl, all, hall, ?_⟩
  rw [hfeed, hts, hus]
  rfl

end HidDescriptor
