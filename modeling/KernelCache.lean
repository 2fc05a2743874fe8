import KernelCache.SortedMap
import KernelCache.Text.Blank
import KernelCache.Digest.Text
import KernelCache.Salt
import KernelCache.Checksum
import KernelCache.Lock
import KernelCache.Json.Record
import KernelCache.Backend
import KernelCache.Flags
import KernelCache.Kernel.Argument
import KernelCache.Kernel.Declaration
import KernelCache.Kernel.Launch
import KernelCache.Kernel.Manifest
import KernelCache.Text.Scan
import KernelCache.Toml.Lexical
import KernelCache.Toml.Number
import KernelCache.Toml.Quoted
import KernelCache.Toml.Value
import KernelCache.Toml.Document
import KernelCache.Settings.Basic
import KernelCache.Settings.Resolve
import KernelCache.Device.Basic
import KernelCache.Shell.Run
import KernelCache.Build.Action
import KernelCache.Build.Context
import KernelCache.Build.Pipeline
import KernelCache.Build.Workplace
import KernelCache.CommandLine.Options
import KernelCache.CommandLine.Run
import KernelCache.Main
import KernelCache.Proofs.Except
import KernelCache.Proofs.Files.Place
import KernelCache.Proofs.Files.Effect
import KernelCache.Proofs.Digest.Text
import KernelCache.Proofs.Text.Utf8
import KernelCache.Proofs.Json.Text
import KernelCache.Proofs.Json.Document
import KernelCache.Proofs.Kernel.Manifest
import KernelCache.Proofs.Build.Layout
import KernelCache.Proofs.Program
import KernelCache.Proofs.Crew.Scene
import KernelCache.Proofs.Crew.Change
import KernelCache.Proofs.Crew.Logic
import KernelCache.Proofs.Crew.Store
import KernelCache.Proofs.Crew.Publish
import KernelCache.Proofs.Crew.Build
import KernelCache.Proofs.Crew.World
import KernelCache.Proofs.Crew.Coherence
import KernelCache.Proofs.Crew.Once
import KernelCache.Proofs.Crew.Reload
import KernelCache.Proofs.Crew.Alone
import KernelCache.Proofs.Crew.Consistency
import KernelCache.Proofs.Kernel.Translation
import KernelCache.Proofs.Crew.Metadata
import KernelCache.Proofs.Files.Success
import KernelCache.Proofs.Solo.State
import KernelCache.Proofs.Solo.Store
import KernelCache.Proofs.Solo.Toolkit
import KernelCache.Proofs.Solo.Stock
import KernelCache.Proofs.Solo.Build
import KernelCache.Proofs.Solo.Transparency
import KernelCache.Proofs.Digest.Algebra
import KernelCache.Proofs.Salt
import KernelCache.Proofs.Device.Identity
import KernelCache.Proofs.Build.Key
import KernelCache.Proofs.Files.Lineage
import KernelCache.Proofs.Locks.History
import KernelCache.Proofs.Locks.Grip
import KernelCache.Proofs.Locks.Makers
import KernelCache.Proofs.Locks.Soundness
import KernelCache.Proofs.Locks.Exclusion
import KernelCache.Proofs.Digest.Cancellation
import KernelCache.Proofs.Digest.Window
import KernelCache.Proofs.Rule
import KernelCache.Proofs.Device.Engine
import KernelCache.Proofs.Conduct.Hand
import KernelCache.Proofs.Conduct.Build
import KernelCache.Proofs.Conduct.Turn
import KernelCache.Proofs.Conduct.Locks
import KernelCache.Proofs.Conduct.Cleanup
import KernelCache.Proofs.Conduct.Rebuild
import KernelCache.Proofs.Conduct.Waiting
import KernelCache.Proofs.Text.Blank
import KernelCache.Proofs.Text.Search
import KernelCache.Proofs.Text.Replace
import KernelCache.Proofs.Kernel.Declaration
import KernelCache.Proofs.Retry.Sketch
import KernelCache.Proofs.Retry.Store
import KernelCache.Proofs.Retry.Build
import KernelCache.Proofs.Retry.Attempt
import KernelCache.Proofs.Retry.Completion
import KernelCache.Proofs.Retry.Converges
import KernelCache.Proofs.Files.Fresh
import KernelCache.Proofs.Solo.Catalog
import KernelCache.Proofs.Files.Making
import KernelCache.Proofs.Files.Alike
import KernelCache.Proofs.Independence.Abreast
import KernelCache.Proofs.Independence.Projection
import KernelCache.Proofs.Text.Slice
import KernelCache.Proofs.Text.Scan
import KernelCache.Proofs.Kernel.Opening
import KernelCache.Proofs.Kernel.Reading
import KernelCache.Proofs.Kernel.Offsets
import KernelCache.Proofs.Shell.Word
import KernelCache.Proofs.Shell.Script
import KernelCache.Proofs.Device.CommandLine
import KernelCache.Proofs.Device.Call
import KernelCache.Proofs.Device.Streams
import KernelCache.Proofs.Device.Account
import KernelCache.Proofs.Device.Freed
import KernelCache.Proofs.Kernel.Wrapper
import KernelCache.Proofs.Flags
import KernelCache.Proofs.Kernel.Marker
import KernelCache.Proofs.Kernel.Macro
import KernelCache.Proofs.Digest.Overflow
import KernelCache.Proofs.Digest.Format
import KernelCache.Proofs.Text.Decimal
import KernelCache.Proofs.Files.Names
import KernelCache.Proofs.Still
import KernelCache.Proofs.Locks.Listing
import KernelCache.Proofs.Locks.Traffic
import KernelCache.Proofs.Locks.Ledger
import KernelCache.Proofs.Locks.Diary
import KernelCache.Proofs.Locks.Patience
import KernelCache.Proofs.Locks.Fate
import KernelCache.Proofs.Store.Bench
import KernelCache.Proofs.Store.Writing
import KernelCache.Proofs.Store.Temporaries
import KernelCache.Proofs.Store.Replacement
import KernelCache.Proofs.Device.Contents
import KernelCache.Proofs.Device.Refused
import KernelCache.Proofs.Flags.Order
import KernelCache.Proofs.Flags.Reading
import KernelCache.Proofs.Device.Arguments
import KernelCache.Proofs.Settings.Usable
import KernelCache.Proofs.Path.Below
import KernelCache.Proofs.Path.Shortening
import KernelCache.Proofs.Kernel.NormalForm
import KernelCache.Proofs.Kernel.Pairing
import KernelCache.Proofs.Kernel.Rounds
