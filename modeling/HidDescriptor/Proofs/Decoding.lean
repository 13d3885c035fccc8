import HidDescriptor.Decode
import HidDescriptor.Proofs.Tokens

/-! # Decoding as a run over tokens

`decode` reads tokens off the bytes while it folds them into a context, and collects records and
notes on the way. `Context.run` leaves the reading and the notes out: it feeds a list of tokens to a
context, up to the first fault. The two agree (`records_decode`, `fault_decode`), and so statements
about decoding are statements about lists of tokens, by induction on the list. The notes come from
the tokens as well: they are told from those that have been taken (`runList_eq_past`). -/

namespace HidDescriptor

/-- What comes of tokens that are fed to a context one after the other. -/
structure Run where
  /-- The records, up to the fault if there is one. -/
  records : List Record
  /-- The first fault, or else the context in the end. -/
  outcome : Except Fault Context

namespace Context

/-- Feeds tokens to the context, up to the first fault. -/
def run (c : Context) : List Token → Run
  | [] => ⟨[], .ok c⟩
  | t :: ts =>
    match c.feed t with
    | .error fault => ⟨[], .error fault⟩
    | .ok (d, record) => ⟨record.toList ++ (run d ts).records, (run d ts).outcome⟩

theorem run_of_error {c : Context} {t : Token} {fault : Fault} (h : c.feed t = .error fault)
    (ts : List Token) : c.run (t :: ts) = ⟨[], .error fault⟩ := by
  rw [run, h]

theorem run_of_ok {c d : Context} {t : Token} {record : Option Record}
    (h : c.feed t = .ok (d, record)) (ts : List Token) :
    c.run (t :: ts) = ⟨record.toList ++ (d.run ts).records, (d.run ts).outcome⟩ := by
  rw [run, h]

/-- A run that has taken all tokens has taken the first one and then the others. -/
theorem run_cons_eq_ok {c d : Context} {t : Token} {ts : List Token} {records : List Record}
    (h : c.run (t :: ts) = ⟨records, .ok d⟩) :
    ∃ e record rest, c.feed t = .ok (e, record) ∧ e.run ts = ⟨rest, .ok d⟩ ∧
      records = record.toList ++ rest := by
  cases hfeed : c.feed t with
  | error fault =>
      rw [run_of_error hfeed] at h
      cases h
  | ok taken =>
      obtain ⟨e, record⟩ := taken
      rw [run_of_ok hfeed] at h
      obtain ⟨rfl, houtcome⟩ := Run.mk.inj h
      refine ⟨e, record, (e.run ts).records, rfl, ?_, rfl⟩
      rw [← houtcome]

/-! ## Runs in two parts -/

variable {c d : Context} {ts : List Token} {fault : Fault}

/-- A run that goes through is taken up where it ended. -/
theorem run_append_of_ok (h : (c.run ts).outcome = .ok d) (us : List Token) :
    c.run (ts ++ us) = ⟨(c.run ts).records ++ (d.run us).records, (d.run us).outcome⟩ := by
  induction ts generalizing c with
  | nil =>
      cases h
      rfl
  | cons t ts ih =>
      cases hfeed : c.feed t with
      | error fault =>
          rw [run_of_error hfeed] at h
          cases h
      | ok taken =>
          obtain ⟨e, record⟩ := taken
          rw [run_of_ok hfeed] at h
          rw [List.cons_append, run_of_ok hfeed, run_of_ok hfeed, ih h, List.append_assoc]

/-- A run that has been refused stays as it is, whatever comes behind. -/
theorem run_append_of_error (h : (c.run ts).outcome = .error fault) (us : List Token) :
    c.run (ts ++ us) = c.run ts := by
  induction ts generalizing c with
  | nil => cases h
  | cons t ts ih =>
      cases hfeed : c.feed t with
      | error refused => rw [List.cons_append, run_of_error hfeed, run_of_error hfeed]
      | ok taken =>
          obtain ⟨e, record⟩ := taken
          rw [run_of_ok hfeed] at h
          rw [List.cons_append, run_of_ok hfeed, run_of_ok hfeed, ih h]

/-- More tokens can only add records. -/
theorem prefix_records_run (c : Context) (ts us : List Token) :
    (c.run ts).records <+: (c.run (ts ++ us)).records := by
  cases houtcome : (c.run ts).outcome with
  | error fault =>
      exact ⟨[], by rw [List.append_nil, run_append_of_error houtcome]⟩
  | ok d =>
      rw [run_append_of_ok houtcome]
      exact List.prefix_append _ _

/-! ## The two refusals -/

/-- There are two ways for an item to be refused: it closes a bracket of either kind, and none is
open. -/
theorem feedItem_eq_error_iff {offset : Nat} {x : Item} :
    c.feedItem offset x = .error fault ↔
      (x = .pop ∧ c.saved = [] ∧ fault = ⟨offset, .popWithoutPush⟩) ∨
        (x = .endCollection ∧ c.enclosing = [] ∧ fault = ⟨offset, .endWithoutCollection⟩) := by
  cases x with
  | pop =>
      cases hsaved : c.saved with
      | nil => simp [feedItem, hsaved, eq_comm]
      | cons table saved => simp [feedItem, hsaved]
  | endCollection =>
      cases hopen : c.enclosing with
      | nil => simp [feedItem, hopen, eq_comm]
      | cons kind outer => simp [feedItem, hopen]
  | _ => simp [feedItem]

theorem offset_of_feed_error {t : Token} (h : c.feed t = .error fault) :
    fault.offset = t.offset := by
  rcases feedItem_eq_error_iff.mp h with ⟨-, -, rfl⟩ | ⟨-, -, rfl⟩ <;> rfl

/-- A run that is refused has gone well up to the token that is refused. -/
theorem exists_refused (h : (c.run ts).outcome = .error fault) :
    ∃ taken t rest d, ts = taken ++ t :: rest ∧
      c.run taken = ⟨(c.run ts).records, .ok d⟩ ∧ d.feed t = .error fault := by
  induction ts generalizing c with
  | nil => cases h
  | cons t ts ih =>
      cases hfeed : c.feed t with
      | error refused =>
          rw [run_of_error hfeed] at h ⊢
          cases h
          exact ⟨[], t, ts, c, rfl, rfl, hfeed⟩
      | ok first =>
          obtain ⟨e, record⟩ := first
          rw [run_of_ok hfeed] at h
          obtain ⟨taken, s, rest, d, rfl, hrun, hs⟩ := ih h
          refine ⟨t :: taken, s, rest, d, rfl, ?_, hs⟩
          rw [run_of_ok hfeed, run_of_ok hfeed, hrun]

end Context

namespace Decoded.Progress

/-- How far decoding has come behind tokens that have all been taken: there are their records, and a
note on each of them that was skipped. -/
def past (p : Progress) (taken : List Token) (records : List Record) (d : Context) : Progress where
  context := d
  records := p.records ++ records.toArray
  skipped := p.skipped ++ (taken.filterMap (·.skipNote?)).toArray

theorem past_cons (p : Progress) (t : Token) (taken : List Token) (record : Option Record)
    (records : List Record) (c d : Context) :
    Progress.past ⟨c, p.records ++ record.toArray, p.skipped ++ t.skipNote?.toArray⟩ taken records
        d = p.past (t :: taken) (record.toList ++ records) d := by
  cases record <;> cases hnote : t.skipNote? <;> simp [past, hnote]

variable {p : Progress} {taken rest ts : List Token} {t : Token} {records : List Record}
  {d : Context} {refused : Fault}

/-- Decoding passes over tokens that are all taken. -/
theorem runList_append_of_ok (h : p.context.run taken = ⟨records, .ok d⟩) (cut : Option Fault)
    (rest : List Token) :
    reader.runList cut p (taken ++ rest) = reader.runList cut (p.past taken records d) rest := by
  induction taken generalizing p records with
  | nil =>
      cases h
      simp [past]
  | cons t taken ih =>
      obtain ⟨e, record, records, hfeed, hrun, rfl⟩ := Context.run_cons_eq_ok h
      rw [← past_cons p t taken record records e d, List.cons_append]
      simp only [Reader.runList, reader, step, hfeed]
      exact ih hrun

/-- Decoding stops at the token that is refused. -/
theorem runList_of_feed_error (h : p.context.feed t = .error refused) (cut : Option Fault)
    (rest : List Token) : reader.runList cut p (t :: rest) = p.stop refused := by
  simp only [Reader.runList, reader, step, h]

/-- Decoding goes as the context does: it comes to its end with all tokens taken, or it stops at the
first that is refused. -/
theorem runList_eq_past (cut : Option Fault) (p : Progress) (ts : List Token) :
    (∃ d, p.context.run ts = ⟨(p.context.run ts).records, .ok d⟩ ∧
      reader.runList cut p ts = reader.finish (p.past ts (p.context.run ts).records d) cut) ∨
    ∃ taken t rest d refused, ts = taken ++ t :: rest ∧
      (p.context.run ts).outcome = .error refused ∧
      p.context.run taken = ⟨(p.context.run ts).records, .ok d⟩ ∧ d.feed t = .error refused ∧
      reader.runList cut p ts = (p.past taken (p.context.run ts).records d).stop refused := by
  cases houtcome : (p.context.run ts).outcome with
  | ok d =>
      have hrun : p.context.run ts = ⟨(p.context.run ts).records, .ok d⟩ := by rw [← houtcome]
      left
      refine ⟨d, hrun, ?_⟩
      have hall := runList_append_of_ok hrun cut []
      rwa [List.append_nil] at hall
  | error refused =>
      obtain ⟨taken, t, rest, d, hts, hrun, hfeed⟩ := Context.exists_refused houtcome
      right
      refine ⟨taken, t, rest, d, refused, hts, rfl, hrun, hfeed, ?_⟩
      conv => lhs; rw [hts]
      rw [runList_append_of_ok hrun, runList_of_feed_error hfeed]

/-- The fault that ends decoding: the one of a token that the context refuses, or else the one of
an item that is cut off. -/
theorem runList_eq_run (cut : Option Fault) (p : Progress) (ts : List Token) :
    (reader.runList cut p ts).records = p.records.toList ++ (p.context.run ts).records ∧
      (reader.runList cut p ts).fault =
        match (p.context.run ts).outcome with
        | .error refused => some refused
        | .ok _ => cut := by
  rcases runList_eq_past cut p ts with
    ⟨d, hrun, hlist⟩ | ⟨taken, t, rest, d, refused, -, houtcome, -, -, hlist⟩
  · rw [hlist, hrun]
    cases cut <;> simp [reader, stop, complete, past]
  · rw [hlist, houtcome]
    simp [stop, past]

end Decoded.Progress

namespace Decoded

theorem whole_eq_ok_iff (d : Decoded) (records : List Record) :
    d.whole = .ok records ↔ d.fault = none ∧ records = d.records := by
  rw [Decoded.whole]
  cases d.fault <;> simp [eq_comm]

theorem whole_eq_error_iff (d : Decoded) (fault : Fault) :
    d.whole = .error fault ↔ d.fault = some fault := by
  rw [Decoded.whole]
  cases d.fault <;> simp

end Decoded

/-- To decode bytes is to decode their tokens. -/
theorem decode_eq_runList (bytes : List UInt8) :
    decode bytes =
      Decoded.Progress.reader.runList (Tokens.ofBytes bytes).fault {} (Tokens.ofBytes bytes).items := by
  rw [decode, Reader.run_eq_runTokens]
  rfl

/-- The records of a descriptor are those of its tokens, fed to a fresh context. -/
theorem records_decode (bytes : List UInt8) :
    (decode bytes).records = (Context.run {} (Tokens.ofBytes bytes).items).records := by
  rw [decode_eq_runList]
  exact (Decoded.Progress.runList_eq_run _ _ _).1

/-- A token that a fresh context refuses comes before an item that is cut off. -/
theorem fault_decode (bytes : List UInt8) :
    (decode bytes).fault =
      match (Context.run {} (Tokens.ofBytes bytes).items).outcome with
      | .error refused => some refused
      | .ok _ => (Tokens.ofBytes bytes).fault := by
  rw [decode_eq_runList]
  exact (Decoded.Progress.runList_eq_run _ _ _).2

end HidDescriptor
