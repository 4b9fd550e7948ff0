import Pepal.Chain.RequestBytes

/-!
# What a download request leaves

A request is accepted exactly when it asks for a contract and the contract can be
written (`accepts_iff_asks`). That is not all it should do: it writes three values
under keys that callers choose and looks at the last error only, and the encoder
changes parties that are no texts. So the balances and the contract that were asked
for stand on the ledger only under conditions of their own (`opened_iff`).
-/

namespace Pepal.Chain.Raw

open Apdlcc (StartAmount ContractKey)

/-! ## What a request asks for -/

/-- The parameters ask for a contract: two keys, a decimal integer from 0 to the
largest `int`, a date that is still to come, an address and a port. -/
structure Asks (params : List Bytes) (now : Time) (s r ip port : Bytes) (dt : Time) (amount : ℤ) :
    Prop where
  params : ∃ depositAmount depositTime : String,
    params = [s, r, bytes depositAmount, bytes depositTime, ip, port] ∧
      Numeral.Decimal depositAmount.toList amount ∧ IsDate depositTime dt
  nonneg : 0 ≤ amount
  le_maxInt : amount ≤ maxInt
  future : dt.After now = true

theorem answer_of_asks {tx : Tx} {s r ip port : Bytes} {dt : Time} {amount : ℤ}
    (h : Asks tx.params (tx.env.now 0) s r ip port dt amount) :
    answer tx =
      if tx.env.fails 2 then
        (.Error "[-] Failed to process download request transaction. Error!",
          requestWrites tx.stub s r ip port dt amount)
      else (.Success "download_request", requestWrites tx.stub s r ip port dt amount) := by
  obtain ⟨depositAmount, depositTime, hparams, hdecimal, hdate⟩ := h.params
  have hmin : minInt ≤ amount := le_trans (by decide) h.nonneg
  have hamount : Atoi depositAmount = (amount, false) :=
    Atoi_ok.mpr ⟨hdecimal, hmin, h.le_maxInt⟩
  have hdt : Parse depositTime = .ok dt := Parse_ok.mpr hdate
  have hfuture : dt.After (tx.stub.env.now 0) = true := h.future
  rw [answer_eq, hparams]
  simp only [goText_bytes, hamount, hdt, hfuture]
  rw [if_neg (not_invalid h.nonneg)]
  rfl

/-- **A request is accepted exactly when it asks for a contract that can be
written.** -/
theorem accepts_iff_asks (tx : Tx) :
    (answer tx).1.isSuccess = true ↔
      ∃ s r ip port dt amount, Asks tx.params (tx.env.now 0) s r ip port dt amount ∧
        tx.env.fails 2 = false := by
  constructor
  · intro h
    rw [answer_eq] at h
    split at h
    · rename_i s r depositAmount depositTime ip port hparams
      split at h
      · cases h
      · rename_i hamount
        rw [not_or, Bool.not_eq_true, not_lt] at hamount
        split at h
        · cases h
        · rename_i dt hdt
          split at h
          · cases h
          · rename_i hfuture
            dsimp only at h
            split at h
            · cases h
            · rename_i hwritten
              have hatoi : Atoi (goText depositAmount) = ((Atoi (goText depositAmount)).1, false) :=
                Prod.ext rfl hamount.1
              -- number and date are ASCII, so they are the texts that were read
              obtain ⟨amountText, rfl⟩ := isText_of_Atoi hatoi
              obtain ⟨dateText, rfl⟩ := isText_of_Parse hdt
              rw [goText_bytes] at hatoi hdt hamount
              obtain ⟨hdecimal, -, hmax⟩ := Atoi_ok.mp hatoi
              have hafter : dt.After (tx.stub.env.now 0) = true := by simpa using hfuture
              exact ⟨s, r, ip, port, dt, (Atoi amountText).1,
                ⟨⟨amountText, dateText, hparams, hdecimal, Parse_ok.mp hdt⟩, hamount.2, hmax,
                  hafter⟩, Bool.eq_false_of_not_eq_true hwritten⟩
    · cases h
  · rintro ⟨s, r, ip, port, dt, amount, h, hwritten⟩
    rw [answer_of_asks h, hwritten]
    rfl

theorem next_of_asks (ledger : Ledger) {tx : Tx} {s r ip port : Bytes} {dt : Time} {amount : ℤ}
    (h : Asks tx.params (tx.env.now 0) s r ip port dt amount) (hwritten : tx.env.fails 2 = false) :
    next ledger tx = commit ledger (requestWrites tx.stub s r ip port dt amount) := by
  unfold next
  rw [answer_of_asks h, hwritten]
  rfl

/-! ## What is on the ledger after a request -/

theorem commit_append (ledger : Ledger) (writes more : List (Bytes × Bytes)) :
    commit ledger (writes ++ more) = commit (commit ledger writes) more := List.foldl_append

theorem commit_put (stub : Stub) (call : ℕ) (key value : Bytes) (ledger : Ledger) (u : Bytes) :
    commit ledger (stub.put call key value) u =
      if u = key ∧ stub.rejects call key = false then value else ledger u := by
  unfold Stub.put
  split
  · rename_i hrejects
    rw [if_neg (by simp [hrejects])]
    rfl
  · rename_i haccepts
    rw [Bool.not_eq_true] at haccepts
    simp only [haccepts, and_true]
    exact Function.update_apply ledger key value u

/-- Both parties start with what is left of the first balance. -/
def start (amount : ℤ) : Bytes := bytes (Itoa (StartAmount - amount))

section Requested

variable {tx : Tx} {s r ip port : Bytes} {dt : Time} {amount : ℤ}
  (h : Asks tx.params (tx.env.now 0) s r ip port dt amount)

include h

theorem wrapInt_start : wrapInt (StartAmount - amount) = StartAmount - amount :=
  wrapInt_sub_of_nonneg ⟨by decide, by decide⟩ ⟨h.nonneg, h.le_maxInt⟩

theorem ledger_request (ledger : Ledger) {u : Bytes} (hu : u ≠ bytes ContractKey) :
    commit ledger (requestWrites tx.stub s r ip port dt amount) u =
      if (u = s ∧ tx.stub.rejects 0 s = false) ∨ (u = r ∧ tx.stub.rejects 1 r = false) then
        start amount
      else ledger u := by
  unfold requestWrites
  rw [wrapInt_start h, commit_append, commit_append, commit_put, commit_put, commit_put,
    if_neg fun hcontract => hu hcontract.1]
  by_cases hr : u = r ∧ tx.stub.rejects 1 r = false
  · rw [if_pos hr, if_pos (Or.inr hr)]
    rfl
  · rw [if_neg hr]
    by_cases hs : u = s ∧ tx.stub.rejects 0 s = false
    · rw [if_pos hs, if_pos (Or.inl hs)]
      rfl
    · rw [if_neg hs, if_neg (not_or.mpr ⟨hs, hr⟩)]

/-- What is read back of the contract. -/
theorem record_request (ledger : Ledger) (hwritten : tx.env.fails 2 = false) :
    record (commit ledger (requestWrites tx.stub s r ip port dt amount)) =
      .ofText (requested s r ip port dt amount).text := by
  obtain ⟨_, _, -, -, hdate⟩ := h.params
  have hmin : minInt ≤ amount := le_trans (by decide) h.nonneg
  have hstorable : (requested s r ip port dt amount).text.Storable :=
    ⟨year_of_Parse (Parse_ok.mpr hdate), hmin, h.le_maxInt⟩
  obtain ⟨b, hb, hread⟩ := Unmarshal_Marshal true hstorable
  have hput : tx.stub.rejects 2 (bytes ContractKey) = false := by
    rw [rejects_ContractKey]
    exact hwritten
  have hmarshals : tx.stub.env.marshalFails = false := tx.marshals
  unfold record requestWrites
  rw [commit_append, commit_put, if_pos ⟨rfl, hput⟩, Stub.marshal, hmarshals,
    if_neg Bool.false_ne_true, hb]
  dsimp only
  rw [goText_bytes, hread]
  rfl

end Requested

/-- The ledger after the request is the one before with the two balances and the
contract. -/
structure Opened (ledger ledger' : Ledger) (s r ip port : Bytes) (dt : Time) (amount : ℤ) :
    Prop where
  owner : ledger' s = start amount
  user : ledger' r = start amount
  contract : record ledger' = requested s r ip port dt amount
  others : ∀ key, key ≠ s → key ≠ r → key ≠ bytes ContractKey → ledger' key = ledger key

/-- The key of a party is a text and not that of the contract, and it is written
or holds the value already. -/
structure Takes (ledger : Ledger) (tx : Tx) (s r : Bytes) (amount : ℤ) (u : Bytes) : Prop where
  text : IsText u
  free : u ≠ bytes ContractKey
  stored : (u = s ∧ tx.stub.rejects 0 s = false) ∨ (u = r ∧ tx.stub.rejects 1 r = false) ∨
    ledger u = start amount

/-- The ledger and the encoder take all that the request asks for. -/
structure Serves (ledger : Ledger) (tx : Tx) (s r ip port : Bytes) (amount : ℤ) : Prop where
  written : tx.env.fails 2 = false
  owner : Takes ledger tx s r amount s
  user : Takes ledger tx s r amount r
  ip : IsText ip
  port : IsText port

/-- A number is no contract. -/
theorem contract_ne_start {ledger : Ledger}
    (h : (record ledger).Status = bytes "download_requested") (amount : ℤ) :
    ledger (bytes ContractKey) ≠ start amount := by
  intro hnumber
  rw [record, hnumber, start, goText_bytes, Unmarshal_Itoa] at h
  exact absurd (bytes_injective h) (by decide)

section Requested

variable {tx : Tx} {s r ip port : Bytes} {dt : Time} {amount : ℤ}
  (h : Asks tx.params (tx.env.now 0) s r ip port dt amount)

include h

theorem stored_iff (ledger : Ledger) (hwritten : tx.env.fails 2 = false) (u : Bytes) :
    commit ledger (requestWrites tx.stub s r ip port dt amount) u = start amount ↔
      u ≠ bytes ContractKey ∧
        ((u = s ∧ tx.stub.rejects 0 s = false) ∨ (u = r ∧ tx.stub.rejects 1 r = false) ∨
          ledger u = start amount) := by
  by_cases hu : u = bytes ContractKey
  · -- the contract is written last
    rw [hu]
    constructor
    · intro hstored
      refine absurd hstored (contract_ne_start ?_ amount)
      rw [record_request h ledger hwritten]
      exact bytes_goText "download_requested"
    · intro htakes
      exact absurd rfl htakes.1
  · rw [ledger_request h ledger hu, ← or_assoc]
    by_cases hput : (u = s ∧ tx.stub.rejects 0 s = false) ∨ (u = r ∧ tx.stub.rejects 1 r = false)
    · rw [if_pos hput]
      exact ⟨fun _ => ⟨hu, Or.inl hput⟩, fun _ => rfl⟩
    · rw [if_neg hput]
      constructor
      · intro hheld
        exact ⟨hu, Or.inr hheld⟩
      · intro htakes
        exact htakes.2.resolve_left hput

theorem opened_iff (ledger : Ledger) (hwritten : tx.env.fails 2 = false) :
    Opened ledger (commit ledger (requestWrites tx.stub s r ip port dt amount)) s r ip port dt
      amount ↔ Serves ledger tx s r ip port amount := by
  have hrecord := record_request h ledger hwritten
  constructor
  · intro hopened
    obtain ⟨hs, hr, hip, hport⟩ := ofText_text_eq_iff.mp (hrecord.symm.trans hopened.contract)
    obtain ⟨hfreeS, hstoredS⟩ := (stored_iff h ledger hwritten s).mp hopened.owner
    obtain ⟨hfreeR, hstoredR⟩ := (stored_iff h ledger hwritten r).mp hopened.user
    exact ⟨hwritten, ⟨hs, hfreeS, hstoredS⟩, ⟨hr, hfreeR, hstoredR⟩, hip, hport⟩
  · intro hserves
    obtain ⟨hs, hfreeS, hstoredS⟩ := hserves.owner
    obtain ⟨hr, hfreeR, hstoredR⟩ := hserves.user
    refine ⟨(stored_iff h ledger hwritten s).mpr ⟨hfreeS, hstoredS⟩,
      (stored_iff h ledger hwritten r).mpr ⟨hfreeR, hstoredR⟩,
      hrecord.trans (ofText_text_eq_iff.mpr ⟨hs, hr, hserves.ip, hserves.port⟩), ?_⟩
    intro key hkeyS hkeyR hcontract
    rw [ledger_request h ledger hcontract, if_neg]
    rintro (⟨heq, -⟩ | ⟨heq, -⟩)
    · exact hkeyS heq
    · exact hkeyR heq

end Requested

/-- **When a request does what it should**: when a request that asks for a
contract names its parties by texts and finds a ledger that takes the contract
and both balances. -/
theorem request_serves_iff (ledger : Ledger) (tx : Tx) :
    (((answer tx).1.isSuccess = true ↔
        ∃ s r ip port dt amount, Asks tx.params (tx.env.now 0) s r ip port dt amount) ∧
      ((answer tx).1.isSuccess = true →
        ∀ s r ip port dt amount, Asks tx.params (tx.env.now 0) s r ip port dt amount →
          Opened ledger (next ledger tx) s r ip port dt amount)) ↔
      ∀ s r ip port dt amount, Asks tx.params (tx.env.now 0) s r ip port dt amount →
        Serves ledger tx s r ip port amount := by
  have haccepts := accepts_iff_asks tx
  constructor
  · rintro ⟨haccepted, heffects⟩ s r ip port dt amount hasks
    have hsuccess := haccepted.mpr ⟨s, r, ip, port, dt, amount, hasks⟩
    obtain ⟨_, _, _, _, _, _, -, hwritten⟩ := haccepts.mp hsuccess
    have hopened := heffects hsuccess s r ip port dt amount hasks
    rw [next_of_asks ledger hasks hwritten] at hopened
    exact (opened_iff hasks ledger hwritten).mp hopened
  · intro hserves
    constructor
    · rw [haccepts]
      constructor
      · rintro ⟨s, r, ip, port, dt, amount, hasks, -⟩
        exact ⟨s, r, ip, port, dt, amount, hasks⟩
      · rintro ⟨s, r, ip, port, dt, amount, hasks⟩
        exact ⟨s, r, ip, port, dt, amount, hasks, (hserves s r ip port dt amount hasks).written⟩
    · rintro - s r ip port dt amount hasks
      have hserved := hserves s r ip port dt amount hasks
      rw [next_of_asks ledger hasks hserved.written]
      exact (opened_iff hasks ledger hserved.written).mpr hserved

/-! ## Two requests to compute with -/

def emptyLedger : Ledger := fun _ => []

theorem calm_marshals : Apdlcc.calm.marshalFails = false := rfl

/-- A deposit of 100 until the first day of 2030, while the clock stands still
and no call fails. -/
def request (s r ip : Bytes) : Tx :=
  { params := [s, r, bytes "100", bytes "01/01/2030", ip, bytes "8080"], env := Apdlcc.calm
    marshals := calm_marshals }

theorem asks_request (s r ip : Bytes) :
    Asks (request s r ip).params zeroTime s r ip (bytes "8080") Apdlcc.expiry 100 where
  params := ⟨"100", "01/01/2030", rfl, (Atoi_ok.mp (by decide : Atoi "100" = (100, false))).1,
    Parse_ok.mp rfl⟩
  nonneg := by decide
  le_maxInt := by decide
  future := by decide

theorem of_asks_request {s r ip s' r' ip' port' : Bytes} {dt : Time} {amount : ℤ}
    (h : Asks (request s r ip).params zeroTime s' r' ip' port' dt amount) :
    s' = s ∧ r' = r ∧ ip' = ip ∧ port' = bytes "8080" := by
  obtain ⟨_, _, hparams, -, -⟩ := h.params
  simp only [request, List.cons.injEq, and_true] at hparams
  exact ⟨hparams.1.symm, hparams.2.1.symm, hparams.2.2.2.2.1.symm, hparams.2.2.2.2.2.symm⟩

theorem accepts_request (s r ip : Bytes) : (answer (request s r ip)).1.isSuccess = true :=
  (accepts_iff_asks (request s r ip)).mpr ⟨s, r, ip, _, _, _, asks_request s r ip, rfl⟩

/-- A request of A and B. -/
def requestAB : Tx := request (bytes "A") (bytes "B") (bytes "10.0.0.2")

theorem request_serves_AB :
    ((answer requestAB).1.isSuccess = true ↔
        ∃ s r ip port dt amount, Asks requestAB.params zeroTime s r ip port dt amount) ∧
      ((answer requestAB).1.isSuccess = true →
        ∀ s r ip port dt amount, Asks requestAB.params zeroTime s r ip port dt amount →
          Opened emptyLedger (next emptyLedger requestAB) s r ip port dt amount) := by
  refine (request_serves_iff emptyLedger requestAB).mpr ?_
  intro s r ip port dt amount hasks
  obtain ⟨rfl, rfl, rfl, rfl⟩ := of_asks_request hasks
  exact ⟨rfl, ⟨⟨"A", rfl⟩, by decide, Or.inl ⟨rfl, rfl⟩⟩,
    ⟨⟨"B", rfl⟩, by decide, Or.inr (Or.inl ⟨rfl, rfl⟩)⟩, ⟨"10.0.0.2", rfl⟩, ⟨"8080", rfl⟩⟩

/-- An address whose last byte belongs to no character. -/
def strayAddress : Bytes := bytes "10.0.0." ++ [255]

/-- The request is accepted and asks for a contract that it does not open. -/
structure InVain (ledger : Ledger) (tx : Tx) (s r ip port : Bytes) (dt : Time) (amount : ℤ) :
    Prop where
  accepted : (answer tx).1.isSuccess = true
  asks : Asks tx.params (tx.env.now 0) s r ip port dt amount
  notOpened : ¬ Opened ledger (next ledger tx) s r ip port dt amount

theorem inVain_request {s r ip : Bytes}
    (h : ¬ Serves emptyLedger (request s r ip) s r ip (bytes "8080") 100) :
    InVain emptyLedger (request s r ip) s r ip (bytes "8080") Apdlcc.expiry 100 where
  accepted := accepts_request s r ip
  asks := asks_request s r ip
  notOpened := by
    have hasks : Asks (request s r ip).params ((request s r ip).env.now 0) s r ip (bytes "8080")
      Apdlcc.expiry 100 := asks_request s r ip
    rw [next_of_asks emptyLedger hasks rfl, opened_iff hasks emptyLedger rfl]
    exact h

/-- **Two requests that are accepted in vain**: one takes the place of the
contract for a key, and what stands there is the contract and not the balance.
The other has an address that is no text, and the contract has another one. -/
theorem request_not_opened :
    InVain emptyLedger (request (bytes ContractKey) (bytes "B") (bytes "10.0.0.2"))
        (bytes ContractKey) (bytes "B") (bytes "10.0.0.2") (bytes "8080") Apdlcc.expiry 100 ∧
      InVain emptyLedger (request (bytes "A") (bytes "B") strayAddress) (bytes "A") (bytes "B")
        strayAddress (bytes "8080") Apdlcc.expiry 100 := by
  have hstray : ¬ IsText strayAddress :=
    not_isText_of_mem (List.mem_append_right _ List.mem_cons_self) (by decide)
  constructor
  · exact inVain_request fun hserves => hserves.owner.free rfl
  · exact inVain_request fun hserves => hstray hserves.ip

end Pepal.Chain.Raw
