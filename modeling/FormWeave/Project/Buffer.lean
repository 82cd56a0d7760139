import FormWeave.Writer.Basic

/-!
# Buffered output

What goes to a file is collected and passed on in blocks, whenever the buffer is full and at the
end. As long as the two outputs of a run go to two files, nothing of that shows. Two outputs that
share a file write over each other block by block, in the order in which the blocks are passed on.
-/

namespace FormWeave

structure Buffer where
  /-- How many bytes are collected at most; with 0 everything is passed on at once. -/
  capacity : Nat
  position : Nat := 0
  pending : Array UInt8 := #[]

structure Block where
  scope : Scope
  position : Nat
  bytes : Bytes
  deriving Repr

namespace Buffer

def fileCapacity : Nat := 8192

def rest (b : Buffer) (scope : Scope) : List Block :=
  if b.pending.isEmpty then [] else [{ scope, position := b.position, bytes := b.pending.toList }]

def emptied (b : Buffer) : Buffer :=
  { b with position := b.position + b.pending.size, pending := #[] }

/-- Writes bytes, and returns the blocks that are passed on. Bytes that do not fit behind those
collected come into an empty buffer, and bytes that would fill a buffer are not collected at
all. -/
def put (b : Buffer) (scope : Scope) (bytes : Bytes) : Buffer × List Block :=
  if bytes.isEmpty then (b, [])
  else if bytes.length < b.capacity then
    if b.pending.size + bytes.length ≤ b.capacity then
      ({ b with pending := b.pending ++ bytes }, [])
    else ({ b.emptied with pending := bytes.toArray }, b.rest scope)
  else
    let start := b.emptied
    ({ start with position := start.position + bytes.length },
      b.rest scope ++ [{ scope, position := start.position, bytes }])

end Buffer

/-- The blocks in which pieces of output are passed on, in order. At the end the source is passed on
before the header. -/
def Block.ofChunks (source header : Buffer) : List Chunk → List Block
  | [] => source.rest .source ++ header.rest .header
  | chunk :: rest =>
    let (source, first) := source.put .source chunk.sourceBytes
    let (header, second) := header.put .header chunk.headerBytes
    first ++ second ++ ofChunks source header rest

def Block.joined : List Block → List Block
  | [] => []
  | block :: rest =>
    match joined rest with
    | [] => [block]
    | next :: others =>
      if next.scope = block.scope ∧ next.position = block.position + block.bytes.length then
        { block with bytes := block.bytes ++ next.bytes } :: others
      else block :: next :: others

end FormWeave
