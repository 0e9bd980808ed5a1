import DocStore.Format.Decoder

/-!
The payloads of all documents, one after the other, behind a table of 64-bit offsets: payload
`i` lies between offset `i` and offset `i + 1`.
-/

namespace DocStore

/-- The payloads of `documents` documents. -/
structure Payloads where
  documents : Nat
  offsets : View
  data : View

namespace Payloads

/-- Reads the number of documents, the offsets and the payloads. -/
def decode : Decoder Payloads := do
  let documents ← Decoder.uint32 "payload document count"
  let entries ← addSizes documents 1
  let offsets ← Decoder.table entries 8 "payload offsets"
  let total ← Decoder.lastOffset "payload" entries fun entry => offsets.uint64At (entry * 8)
  let data ← Decoder.slice total "payload bytes"
  return { documents, offsets, data }

def get? (p : Payloads) (document : Nat) : Except Fault (Option View) :=
  if document < p.documents then do
    let start ← p.offsets.uint64At (document * 8)
    let stop ← p.offsets.uint64At ((document + 1) * 8)
    return p.data.slice? start (← subSizes stop start)
  else
    return none

def totalLength (p : Payloads) : Nat := p.data.size

def form (payloads : List Bytes) : Bytes :=
  Bytes.ofUInt32 payloads.length ++
    (Bytes.offsets (payloads.map List.length)).flatMap Bytes.ofUInt64 ++ payloads.flatten

end Payloads

end DocStore
