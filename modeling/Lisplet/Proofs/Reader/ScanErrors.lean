import Lisplet.Proofs.Reader.Viable
/-!
Faulty pieces of text and the reader. The reader meets the readings of a text one by one and in order,
and it gives up at the first that is an error or a token in the wrong place. So what it reports as a
fault in the text of a token is the first such fault that there is in the text, and all tokens before
it are the beginning of a script (`ofText_eq_ofScan_iff`).
-/
namespace Lisplet

/-- A token that is refused is not complained about as a fault in the text of a token. -/
theorem Frame.ne_scan_of_refuse {t : Token} {frame : Frame} {err : ReadError} {kept : Bool}
    (h : frame.see t = .refuse err kept) (e : ScanError) : err.fault ≠ .scan e := by
  cases frame with
  | operand hole => cases hole <;> grind [see, seeOperand, special?, refuseToken, Hole.close]
  | assignedName | functionHead | parametersStart | parameters | properties | propertyName
  | propertyEnd | memberName | complete => grind [see, takeName, refuseToken]

theorem Frame.faultAtEnd_ne_scan (frame : Frame) (e : ScanError) : frame.faultAtEnd ≠ .scan e := by
  cases frame <;> simp [faultAtEnd]

/-- A fault in the text of a token is reported where it is met. -/
theorem Stand.Rejects.eq_ofScan {p : Stand} {r : Reading} {err : ReadError} {e : ScanError}
    (rejects : p.Rejects r err) (scan : err.fault = .scan e) : r = .error e ∧ err = .ofScan e := by
  cases rejects with
  | fault _ e' =>
    cases scan
    exact ⟨rfl, rfl⟩
  | ended frame outer line => exact absurd scan (frame.faultAtEnd_ne_scan e)
  | stray line => cases scan
  | refused more see => exact absurd scan (Frame.ne_scan_of_refuse see e)

open Reader

/-- A fault in the text of a token is reported on its own line. -/
theorem Script.eq_ofScan {text : String} {err : ReadError} {e : ScanError}
    (rejected : Script.ofText text = .error err) (scan : err.fault = .scan e) : err = .ofScan e := by
  obtain ⟨ts, r, rest, p, -, -, rejects⟩ := Script.exists_rejects rejected
  exact (rejects.eq_ofScan scan).2

/-- A fault in the text of a token is what a text is rejected for if and only if it is the first such
fault, and the tokens before it are the beginning of a script. -/
theorem Script.ofText_eq_ofScan_iff {text : String} {e : ScanError} :
    Script.ofText text = .error (.ofScan e) ↔ ∃ ts rest,
      (Scanner.ofText text).readings = ts.map .ok ++ .error e :: rest ∧ Viable ts := by
  constructor
  · intro rejected
    obtain ⟨ts, r, rest, q, readings, taken, rejects⟩ := Script.exists_rejects rejected
    obtain ⟨rfl, -⟩ := rejects.eq_ofScan rfl
    exact ⟨ts, rest, readings, viable_iff.mpr ⟨q, taken⟩⟩
  · rintro ⟨ts, rest, split, viable⟩
    obtain ⟨q, taken⟩ := viable_iff.mp viable
    obtain ⟨⟨rs, last⟩, scans⟩ := (Scanner.ofText text).exists_scans
    have readings : (Scanner.ofText text).readings = rs ++ [.ok ⟨.eof, last⟩] := scans
    rw [readings] at split
    rw [Script.ofText_eq_readScript scans]
    -- The end comes last, so it is behind the error.
    rcases List.eq_nil_or_concat rest with rfl | ⟨rest', r, rfl⟩
    · cases (List.append_inj' split rfl).2
    · rw [List.concat_eq_append, ← List.cons_append, ← List.append_assoc] at split
      have here : Cursor.mk rs last = ahead ts (.error e :: rest') last :=
        congrArg (Cursor.mk · last) (List.append_inj' split rfl).1
      obtain ⟨held, c, same, rfl⟩ := resume_takeAll feeds_cursor here taken []
      rw [readScript, ← resume, same]
      exact resume_error rfl held q

end Lisplet
