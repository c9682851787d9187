import ExtKtrace.Lib.Tally
import ExtKtrace.Lib.Arc
import ExtKtrace.Lib.Filing
import ExtKtrace.Lib.Machine
import ExtKtrace.Lib.BoundedMap
import ExtKtrace.Lib.Word
import ExtKtrace.Lib.Call
import ExtKtrace.Bpf.Map
import ExtKtrace.Bpf.HashMap
import ExtKtrace.Bpf.HashMapRefinement
import ExtKtrace.Lib.RecencyList
import ExtKtrace.Bpf.LruMap
import ExtKtrace.Bpf.LruMapRecency
import ExtKtrace.TpLexer.Literal
import ExtKtrace.TpLexer.Lexer
import ExtKtrace.TpLexer.Parser
import ExtKtrace.Lib.Endian
import ExtKtrace.Lib.Outcome
import ExtKtrace.TpLexer.Eval
import ExtKtrace.TpLexer.BufSound
import ExtKtrace.TpLexer.MapContext
import ExtKtrace.TpLexer.Printer
import ExtKtrace.TpLexer.TokenText
import ExtKtrace.TpLexer.RoundTrip
import ExtKtrace.TpLexer.Accepted
import ExtKtrace.Bpf.RingBuf
import ExtKtrace.Lib.Tiling
import ExtKtrace.Bpf.RingBufRuns
import ExtKtrace.Bpf.RingBufQueue
import ExtKtrace.Bpf.RingBufWakeup
import ExtKtrace.Bpf.RingBufFifo
import ExtKtrace.Bpf.RingBufForged
import ExtKtrace.Bpf.PerfRing
import ExtKtrace.Bpf.PerfRingFraming
import ExtKtrace.Bpf.PerfRingConserved
import ExtKtrace.Ddebug.Pattern
import ExtKtrace.Ddebug.Query
import ExtKtrace.Ddebug.Control
import ExtKtrace.Ddebug.RoundTrip
import ExtKtrace.Kprobe.Arch
import ExtKtrace.Kprobe.Registry
import ExtKtrace.Kprobe.Planted
import ExtKtrace.Kprobe.Sound
import ExtKtrace.Kprobe.Writer
import ExtKtrace.Kprobe.Books
import ExtKtrace.Kprobe.InStep
import ExtKtrace.Kprobe.Cpus
import ExtKtrace.Kprobe.Claimed
import ExtKtrace.Kprobe.Slots
import ExtKtrace.Kprobe.SingleStep
import ExtKtrace.Kprobe.Transparent
import ExtKtrace.Kprobe.Uprobe
import ExtKtrace.Kprobe.UprobeRuns
import ExtKtrace.Kprobe.Rekeyed
import ExtKtrace.Kprobe.FirstHits
import ExtKtrace.Kprobe.Processes
import ExtKtrace.Bpf.Array
import ExtKtrace.Bpf.Queue
import ExtKtrace.Bpf.UnifiedMap
import ExtKtrace.Bpf.MapContents
import ExtKtrace.Bpf.MapRefusals
import ExtKtrace.Bpf.Syscalls
import ExtKtrace.Bpf.Helpers
import ExtKtrace.Bpf.HelperReturns
import ExtKtrace.Lib.Utf8
import ExtKtrace.Lib.StableSort
import ExtKtrace.Lib.Stuttering
import ExtKtrace.Lib.Bisect
import ExtKtrace.Ksym.Symbols
import ExtKtrace.Ksym.GenKsym
import ExtKtrace.Ksym.Mapped
import ExtKtrace.Ksym.Records
import ExtKtrace.Ksym.Compress
import ExtKtrace.Ksym.Generated
import ExtKtrace.Ksym.Blob
import ExtKtrace.Ksym.Loaded
import ExtKtrace.Ksym.AddressLookup
import ExtKtrace.Ksym.NameLookup
import ExtKtrace.Ksym.Readable
import ExtKtrace.Kprobe.Retprobe
import ExtKtrace.Kprobe.ReturnStack
import ExtKtrace.Kprobe.RetprobeLifetime
import ExtKtrace.Ksym.BlobBounds
import ExtKtrace.TpLexer.GlobLanguage
import ExtKtrace.Bpf.KeyLoop
import ExtKtrace.Bpf.LruMapDump
import ExtKtrace.Lib.CursorWalk
import ExtKtrace.Bpf.HashMapWalk
import ExtKtrace.Bpf.QueueLaw
import ExtKtrace.Lib.Slots
import ExtKtrace.Bpf.ArrayElements
import ExtKtrace.Bpf.RingBufRelease
import ExtKtrace.Bpf.DynptrPairs
import ExtKtrace.Bpf.RingBufMmap
import ExtKtrace.Bpf.PerfRecordLength
import ExtKtrace.Lib.BitPattern
import ExtKtrace.Kprobe.WordPoint
import ExtKtrace.Kprobe.Aarch64
import ExtKtrace.Kprobe.LoongArch64
import ExtKtrace.Lib.Past
import ExtKtrace.Bpf.PerfLossOrder
import ExtKtrace.Bpf.PerfHostile
import ExtKtrace.Bpf.Preprocessor
import ExtKtrace.Bpf.Relocation
import ExtKtrace.Bpf.RelocationSafety
import ExtKtrace.Lib.Traversal
import ExtKtrace.Bpf.PerCpuLookup
import ExtKtrace.Bpf.ForEachElem
import ExtKtrace.Kprobe.RetprobeCallbacks
import ExtKtrace.Lib.Wildcard
import ExtKtrace.Ddebug.GlobMatch
import ExtKtrace.Ddebug.NamedSites
import ExtKtrace.Ddebug.Lines
import ExtKtrace.Ddebug.Joined
import ExtKtrace.TpLexer.IntegerText
import ExtKtrace.TpLexer.Spelling
import ExtKtrace.TpLexer.Spans
import ExtKtrace.TpLexer.QuotedText
import ExtKtrace.TpLexer.Derived
import ExtKtrace.TpLexer.Operands
import ExtKtrace.TpLexer.IntegerFields
import ExtKtrace.Ktracepoint.TracePipe
import ExtKtrace.Ktracepoint.CmdLineRecency
import ExtKtrace.Bpf.PerfArithmetic
import ExtKtrace.TpLexer.ClassHyphen
import ExtKtrace.Ktracepoint.TraceFilter
import ExtKtrace.Lib.PrintfFormat
import ExtKtrace.Bpf.TracePrintf
import ExtKtrace.Lib.Window
import ExtKtrace.Ktracepoint.RawPipe
import ExtKtrace.Lib.ReprC
import ExtKtrace.Ktracepoint.Point
import ExtKtrace.Ktracepoint.Entry
import ExtKtrace.Ktracepoint.Init
import ExtKtrace.Ktracepoint.Parse
import ExtKtrace.Ktracepoint.Trace
import ExtKtrace.Ktracepoint.Tracer
import ExtKtrace.Ktracepoint.TracerRefinement
import ExtKtrace.Ktracepoint.Concurrent
import ExtKtrace.Lib.Spill
import ExtKtrace.Kprobe.Trampoline
import ExtKtrace.Kprobe.TrampolineX86
import ExtKtrace.Kprobe.Rethooked
import ExtKtrace.Ddebug.Runtime
import ExtKtrace.Ddebug.Logger
import ExtKtrace.Ddebug.LoggerRefinement
import ExtKtrace.Ddebug.Listing
import ExtKtrace.Ddebug.Concurrent
import ExtKtrace.Bpf.RingBufPages
import ExtKtrace.TpLexer.Grammar
