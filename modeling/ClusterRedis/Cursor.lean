import ClusterRedis.JsonRecord

/-!
# The cursor of a scan

A listing that scans the keyspace carries its state in the cursor it gives
its caller: the server's cursor, the keys that did not fit on the page, and
whether the server's scan is over. It is written as JSON, with what is empty
or false left out, and read as the deserializer of such a record reads it:
members in any order, unknown ones ignored, repeated ones refused, or an
array of the fields in order.

The server's cursor is `0` both before a scan and after it. What tells the
two apart is `done`, so a cursor that lost it would start the scan again:
the round trip `ScanCursor.ofText_text` is what a pass rests on.
-/

/-- **Where a scan stands.** -/
structure ScanCursor where
  /-- The server's cursor of the next step. -/
  scan : UInt64
  /-- The matches that did not fit on the page. -/
  pending : List String
  /-- Whether the server's scan is over. -/
  done : Bool
  deriving DecidableEq

namespace ScanCursor

/-- Before a scan. -/
def start : ScanCursor := ⟨0, [], false⟩

/-! ## Writing -/

/-- The cursor as a JSON value; an empty list and a false flag are left
out. -/
def toJson (st : ScanCursor) : Json :=
  .obj ([("s", .num st.scan.toNat)]
    ++ (if st.pending.isEmpty then [] else [("p", .arr (st.pending.map .str))])
    ++ (if st.done then [("d", .bool true)] else []))

/-- **The text of a cursor.** -/
def text (st : ScanCursor) : String := String.ofList (Json.render st.toJson)

/-! ## Reading -/

/-- An unsigned 64-bit integer. -/
def readScan : Json → Option UInt64
  | .num n => some (UInt64.ofNat n)
  | _ => none

/-- A cursor of its three fields, the last two possibly missing. -/
def readFields (s p d : Option Json) : Option ScanCursor := do
  let scan ← s.bind readScan
  let pending ← Json.readStrs p
  let done ← Json.readFlag d
  some ⟨scan, pending, done⟩

/-- **A cursor of a JSON value.** -/
def ofJson : Json → Option ScanCursor
  | .obj ms => do
    let s ← Json.member ms "s"
    let p ← Json.member ms "p"
    let d ← Json.member ms "d"
    readFields s p d
  | .arr l => if l.length ≤ 3 then readFields l[0]? l[1]? l[2]? else none
  | _ => none

/-- The fields of a cursor. -/
def fields : List String := ["s", "p", "d"]

/-- **A cursor of a text.** -/
def ofText (t : String) : Option ScanCursor := (Json.parseRecord fields t).bind ofJson

example : ofText "\x7b\"s\":0,\"x\":\"\\ud800\",\"p\":[\"k1\"],\"d\":true\x7d"
    = some ⟨0, ["k1"], true⟩ := by decide +kernel

/-! ## Round trip -/

theorem fits_toJson (st : ScanCursor) : Json.Fits 127 st.toJson := by
  have hstr : ∀ l : List String, Json.FitsElems 125 (l.map Json.str) := by
    intro l
    induction l with
    | nil => exact trivial
    | cons s l ih => exact ⟨trivial, ih⟩
  have hscan : st.scan.toNat < 2 ^ 64 := st.scan.toNat_lt
  obtain ⟨scan, pending, done⟩ := st
  cases pending with
  | nil => cases done <;> simp_all [toJson, Json.Fits, Json.FitsMembers]
  | cons k ks =>
    have hks := hstr (k :: ks)
    cases done <;> simp_all [toJson, Json.Fits, Json.FitsMembers]

theorem ofJson_toJson (st : ScanCursor) : ofJson st.toJson = some st := by
  obtain ⟨scan, pending, done⟩ := st
  have hread : ∀ p d, Json.readStrs p = some pending → Json.readFlag d = some done →
      readFields (some (.num scan.toNat)) p d = some ⟨scan, pending, done⟩ := by
    intro p d hp hd
    simp [readFields, readScan, hp, hd]
  cases pending with
  | nil =>
    cases done with
    | false => exact hread none none rfl rfl
    | true => exact hread none (some (.bool true)) rfl rfl
  | cons k ks =>
    have hks := Json.mapM_readStr (k :: ks)
    cases done with
    | false => exact hread (some (.arr _)) none hks rfl
    | true => exact hread (some (.arr _)) (some (.bool true)) hks rfl

/-- **A cursor is read back from its text**: the same scan, the same pending
keys, the same flag. -/
theorem ofText_text (st : ScanCursor) : ofText st.text = some st := by
  have hfit : Json.Fits 127 st.toJson := fits_toJson st
  have hparse : Json.parseRecord fields st.text = some st.toJson := by
    refine Json.parseRecord_fields hfit.2 ?_
    simp only [List.mem_append, List.mem_singleton]
    rintro m ((rfl | hm) | hm)
    · rfl
    · split_ifs at hm <;> simp_all [fields]
    · split_ifs at hm <;> simp_all [fields]
  rw [ofText, hparse]
  exact ofJson_toJson st

example : (⟨42, ["k1"], true⟩ : ScanCursor).text
    = "\x7b\"s\":42,\"p\":[\"k1\"],\"d\":true\x7d" := by
  decide

end ScanCursor
