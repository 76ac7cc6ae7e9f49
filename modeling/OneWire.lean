import OneWire.Bench.Board
import OneWire.Bench.Master
import OneWire.Line.Recording
import OneWire.Line.Shared
import OneWire.Operation
import OneWire.Proofs.Bench.Bytes
import OneWire.Proofs.Ds2484.Erasure
import OneWire.Proofs.Ds2484.Nesting
import OneWire.Proofs.Ds2484.Power
import OneWire.Proofs.Ds2484.Primitives
import OneWire.Proofs.Ds2484.ReadPointer
import OneWire.Proofs.Ds2484.Refinement
import OneWire.Proofs.Master.Blocks
import OneWire.Proofs.Master.Exchange
import OneWire.Proofs.Master.Identification
import OneWire.Proofs.Rom.Checksum
import OneWire.Proofs.Rom.Damage
import OneWire.Proofs.Rom.Forms
import OneWire.Proofs.Search.Addressing
import OneWire.Proofs.Search.Failure
import OneWire.Proofs.Search.Interleave
import OneWire.Proofs.Search.Transcript
import OneWire.Proofs.Session.FirstError
import OneWire.Proofs.Session.Locks
import OneWire.Proofs.Session.Ownership
import OneWire.Proofs.Session.Power
import OneWire.Proofs.Session.Scan
import OneWire.Proofs.Session.Shutdown
