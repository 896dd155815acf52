import ComponentBinding.Callback.Category
import ComponentBinding.Callback.Error
import ComponentBinding.Callback.Invocation
import ComponentBinding.Callback.Locate
import ComponentBinding.Callback.Script
import ComponentBinding.Callback.Selection
import ComponentBinding.Callback.Session
import ComponentBinding.Callback.Shape
import ComponentBinding.Class.Method
import ComponentBinding.Class.Registry
import ComponentBinding.Config
import ComponentBinding.Host
import ComponentBinding.Json.Basic
import ComponentBinding.Json.Fields
import ComponentBinding.Json.Reader
import ComponentBinding.Json.Writer
import ComponentBinding.Log.Event
import ComponentBinding.Log.Logged
import ComponentBinding.Number.Binary
import ComponentBinding.Number.Decimal
import ComponentBinding.Number.Shortest
import ComponentBinding.Panic
import ComponentBinding.Property.Basic
import ComponentBinding.Property.Json
import ComponentBinding.Property.Text
import ComponentBinding.Record.Reference
import ComponentBinding.Record.Service
import ComponentBinding.Text.Blank
import ComponentBinding.Text.Hex
import ComponentBinding.Text.Start
import ComponentBinding.Toml.Number
import ComponentBinding.Toml.Quoted
import ComponentBinding.Toml.Reader
import ComponentBinding.Toml.Scan
import ComponentBinding.Toml.Table
import ComponentBinding.TypeResolver
import ComponentBinding.Version
import ComponentBinding.View.Basic
import ComponentBinding.View.Coercion
import ComponentBinding.View.Error
import ComponentBinding.View.Key
import ComponentBinding.View.Materialize
import ComponentBinding.View.Schema
import ComponentBinding.Proofs.Callback.SearchRule
import ComponentBinding.Proofs.View.Quiet
import ComponentBinding.Proofs.Callback.Outcome
import ComponentBinding.Proofs.Callback.InvokeRule
import ComponentBinding.Proofs.Callback.History
import ComponentBinding.Proofs.Callback.Once
import ComponentBinding.Proofs.Callback.InvokeRun
import ComponentBinding.Proofs.Callback.Selections
import ComponentBinding.Proofs.Callback.Served
import ComponentBinding.Proofs.Callback.ServedRun
import ComponentBinding.Proofs.Property.Extend
import ComponentBinding.Proofs.Property.Under
import ComponentBinding.Proofs.View.Indexed
import ComponentBinding.Proofs.View.Written
import ComponentBinding.Proofs.View.FormsAgree
import ComponentBinding.Proofs.View.Slots
import ComponentBinding.Proofs.View.Conform
import ComponentBinding.Proofs.View.Default
import ComponentBinding.Proofs.View.Local
import ComponentBinding.Proofs.Callback.Update
import ComponentBinding.Proofs.View.Resolvers
import ComponentBinding.Proofs.Number.Rank
import ComponentBinding.Proofs.Number.Numeral
import ComponentBinding.Proofs.View.TextForm
import ComponentBinding.Proofs.Json.Sorted
import ComponentBinding.Proofs.Json.Reading
import ComponentBinding.Proofs.Property.RoundTrip
import ComponentBinding.Proofs.Class.Ancestors
import ComponentBinding.Proofs.View.IntegerText
import ComponentBinding.Proofs.View.ArrayLength
import ComponentBinding.Proofs.View.NarrowInteger
import ComponentBinding.Proofs.Number.Halfway
import ComponentBinding.Proofs.Number.Magnitude
import ComponentBinding.Proofs.View.FloatText
import ComponentBinding.Proofs.Callback.RepeatedDeclaration
import ComponentBinding.Proofs.Callback.Footprint
import ComponentBinding.Proofs.Callback.Independence
import ComponentBinding.Proofs.Callback.LooserGate
import ComponentBinding.Proofs.View.MemberKey
import ComponentBinding.Proofs.View.ItemByItem
import ComponentBinding.Proofs.View.Nesting
import ComponentBinding.Proofs.View.Accounted
import ComponentBinding.Proofs.View.DepthLimit
import ComponentBinding.Proofs.Class.Registration
import ComponentBinding.Proofs.View.MemberLookup
import ComponentBinding.Proofs.Record.RoundTrip
import ComponentBinding.Proofs.Property.ByteOrder
